import VideoRegistry.Text.Blank

/-!
# The copyright banner

The licence comment of a registry heads the generated header as line comments.
The comment usually begins with a line break, which is what puts its first line
behind slashes too.
-/

namespace VideoRegistry

def originNote : String :=
  "\n\n// This header is generated from the Khronos Vulkan XML API Registry."

/-- Puts slashes behind every line break. -/
def commentLines (text : List Char) : List Char :=
  text.flatMap fun c => if c = '\n' then ['\n', '/', '/', ' '] else [c]

/-- The banner of a licence comment. -/
def banner (comment : String) : String :=
  let lines := Text.trimEnd (commentLines comment.toList)
  String.ofList (Text.trim (lines ++ originNote.toList)) ++ "\n"

/-- Whether a comment is the licence comment. -/
def isLicence (comment : String) : Bool :=
  "Copyright".toList.isPrefixOf (Text.trimStart comment.toList)

end VideoRegistry
