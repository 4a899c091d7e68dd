set_option autoImplicit false

/-!
Lines of a text. A line feed ends a line and takes one carriage return before it along; what
follows the last line feed is a line only when it is not empty, and keeps its carriage returns.
-/
namespace FlowAudit.Text

/-- One carriage return at the end of a line belongs to the line's end. -/
def dropReturn (line : List Char) : List Char :=
  if line.getLast? = some '\r' then line.dropLast else line

def lines (text : List Char) : List (List Char) :=
  let pieces := text.splitOn '\n'
  let unended := pieces.getLast?.getD []
  pieces.dropLast.map dropReturn ++ if unended = [] then [] else [unended]

theorem lines_nil : lines [] = [] := rfl

end FlowAudit.Text
