import PushParsing.Text.Ranges

/-!
# White space

The characters with the property White_Space, in order.
-/
namespace PushParsing.Text

/-- Code points of white space. -/
def blanks : List (Nat × Nat) :=
  [(9, 13), (32, 32), (133, 133), (160, 160), (5760, 5760), (8192, 8202), (8232, 8233),
    (8239, 8239), (8287, 8287), (12288, 12288)]

end PushParsing.Text
