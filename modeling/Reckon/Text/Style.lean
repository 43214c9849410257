/-
  Coloured text for terminals.

  A style is a list of display attributes; painting puts the escape sequence
  that selects them before a text and the one that resets them behind it.

  * `Style.paint` paints a text, or leaves it alone where colours are off;
  * `Style.paint_off`: with colours off, painting changes nothing.
-/
namespace Reckon.Text

/-- Display attributes, by the numbers that the escape sequence lists. -/
structure Style where
  attributes : String

namespace Style

def bold : Style := ⟨"1"⟩
def red : Style := ⟨"31"⟩
def green : Style := ⟨"32"⟩
def cyan : Style := ⟨"36"⟩
def brightRed : Style := ⟨"91"⟩
def brightGreen : Style := ⟨"92"⟩
def brightCyan : Style := ⟨"96"⟩
def boldBrightRed : Style := ⟨"1;91"⟩
def boldBrightCyan : Style := ⟨"1;96"⟩
def boldBrightMagenta : Style := ⟨"1;95"⟩

/-- The sequence that ends every style. -/
def reset : String := "\x1b[0m"

/-- The sequence that begins the style. -/
def select (style : Style) : String := "\x1b[" ++ style.attributes ++ "m"

/-- A text in the style. A reset inside the text would end the style early, so
    the style is selected again behind it. -/
def paint (style : Style) (colored : Bool) (text : String) : String :=
  if colored then
    style.select ++ (reset ++ style.select).intercalate (text.splitOn reset) ++ reset
  else text

@[simp] theorem paint_off (style : Style) (text : String) : style.paint false text = text := rfl

end Style

end Reckon.Text
