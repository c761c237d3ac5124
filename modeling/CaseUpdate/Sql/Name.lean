import CaseUpdate.Sql.Dialect

namespace CaseUpdate.Sql.NameStyle

def opening : NameStyle → Char
  | .backtick => '\x60'
  | .doubleQuote => '"'
  | .bracket => '['

def closing : NameStyle → Char
  | .backtick => '\x60'
  | .doubleQuote => '"'
  | .bracket => ']'

/-- A character inside a name: the closing delimiter is written twice. -/
def nameChar (style : NameStyle) (c : Char) : List Char :=
  if c = style.closing then [c, c] else [c]

def quoteChars (style : NameStyle) (name : String) : List Char :=
  style.opening :: (name.toList.flatMap style.nameChar ++ [style.closing])

def quote (style : NameStyle) (name : String) : String := String.ofList (style.quoteChars name)

@[simp] theorem toList_quote (style : NameStyle) (name : String) :
    (style.quote name).toList = style.quoteChars name := String.toList_ofList

end CaseUpdate.Sql.NameStyle
