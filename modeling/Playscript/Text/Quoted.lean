import Playscript.Text.Hex
import Playscript.Text.Printable

/-! # Quoted text

    A text shown inside a message or inside a list stands in single quotes, or in
    double quotes when it holds a single quote and no double one.  The quote in use
    and the backslash are escaped, the common controls have short escapes, and every
    other character that is not printable is written by its code in hexadecimal. -/

namespace Playscript.Text

/-- A character inside quotes of the given kind. -/
def quotedChar (quote : Char) (c : Char) : List Char :=
  if c = quote || c = '\\' then ['\\', c]
  else if c = '\n' then ['\\', 'n']
  else if c = '\r' then ['\\', 'r']
  else if c = '\t' then ['\\', 't']
  else if isPrintable c then [c]
  else hexEscape hexDigits c

/-- The quote that a text is shown in. -/
def quoteFor (cs : List Char) : Char :=
  if cs.contains '\x27' && !cs.contains '\x22' then '\x22' else '\x27'

/-- A text in quotes. -/
def quoted (text : String) : String :=
  let quote := quoteFor text.toList
  String.ofList (quote :: text.toList.flatMap (quotedChar quote) ++ [quote])

end Playscript.Text
