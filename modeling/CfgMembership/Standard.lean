/-
The libraries that the program runs with.
-/
import CfgMembership.CommandLine.Libraries
import CfgMembership.Standard.Arguments
import CfgMembership.Standard.Escape
import CfgMembership.Standard.LogFile
import CfgMembership.Standard.Settings

namespace CfgMembership

open CommandLine

namespace Standard

def colourCode : Colour → String
  | .brightGreen => "92"
  | .yellow => "33"
  | .brightRed => "91"
  | .onBrightRed => "101"

def paint (coloured : Bool) (colour : Colour) (text : String) : String :=
  if coloured then "\x1b[" ++ colourCode colour ++ "m" ++ text ++ "\x1b[0m" else text

end Standard

namespace CommandLine.Libraries

def standard : Libraries where
  parse arguments :=
    match Standard.commandLine arguments with
    | .error ending => .error ending.farewell
    | .ok arguments => .ok arguments
  deserialize := Standard.settings
  openLog := Standard.openLog
  encode time entry := s!"{time} {entry.level.name} - {entry.message}\n"
  strip := Standard.Escape.strip
  complain error := "log4rs: " ++ error.message
  paint := Standard.paint

end CommandLine.Libraries

end CfgMembership
