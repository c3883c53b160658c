import Joinery.Obstacle
import Joinery.Text.Parts
import Joinery.Yaml.Content

/-!
# YAML files

## Reading a file as far as needed

A file is read block by block while its text is read.  A fault of the text that lies before the
block in which the file stops being text is therefore the one that is reported.
-/

namespace Joinery
namespace Yaml

def ofFile (malformed : Obstacle) (bytes : ByteArray) : Except Obstacle Value :=
  let file := Utf8.readFile bytes
  let text := Text.unifyLineEnds file.text.toList
  match parse text (file.fault.map fun _ => .brokenOff), file.fault with
  | .ok v, _ => .ok v
  | .error .malformed, _ => .error malformed
  | .error .brokenOff, some fault => .error (.notText fault)
  | .error fault, _ => .error (.scalar fault)

end Yaml
end Joinery
