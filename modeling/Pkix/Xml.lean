/-!
# Indented markup

Values are shown as markup with one tag or one text to a line. Whatever is shown is written in whole
lines after an indentation that the caller hands over, and what stands inside an element is written
after an indentation one tab deeper.
-/

namespace Pkix.Xml

/-- The line that opens an element. -/
def openTag (tab name : String) : String := tab ++ "<" ++ name ++ ">\n"

/-- The line that closes an element. -/
def closeTag (tab name : String) : String := tab ++ "</" ++ name ++ ">\n"

/-- An element whose text stands between its tags on one line. -/
def element (tab name text : String) : String :=
  tab ++ "<" ++ name ++ ">" ++ text ++ "</" ++ name ++ ">\n"

/-- A text on a line of its own. -/
def line (tab text : String) : String := tab ++ text ++ "\n"

/-- The indentation one level deeper than `tab`. -/
def indent (tab : String) : String := tab ++ "\t"

/-- Whole lines between the tags of an element. -/
def wrap (tab name body : String) : String := openTag tab name ++ body ++ closeTag tab name

def flag (b : Bool) : String := if b then "1" else "0"

end Pkix.Xml
