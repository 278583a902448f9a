import Hella.Executor.Xjobs
import Hella.Lib.Regex

/-!
# `HtmlTagFilter`

The three expressions of `Html2Text` over the `char`s of a Java string. None of them looks
at a pair of `char`s, so it does not matter that the matcher takes such a pair at once.
-/
namespace Hella

open Regex

namespace HtmlTagFilter

/-- The class of one character. -/
def char (c : Char) (u : UInt16) : Bool := u.toNat == c.toNat

/-- A letter under `CASE_INSENSITIVE`, given as the small one: only ASCII letters are folded. -/
def letter (c : Char) (u : UInt16) : Bool := u.toNat == c.toNat || u.toNat + 32 == c.toNat

/-- `\\s`. -/
def space (u : UInt16) : Bool := [' ', '\t', '\n', '\x0b', '\x0c', '\r'].any fun c => char c u

/-- `[^>]`. -/
def notClose (u : UInt16) : Bool := !char '>' u

/-- `[\\s\\S]`. -/
def any (_ : UInt16) : Bool := true

def word (name : String) : Pattern UInt16 := name.toList.map fun c => ⟨letter c, .once⟩

/-- `<[\\s]*?name[^>]*?>`. -/
def opening (name : String) : Pattern UInt16 :=
  [⟨char '<', .once⟩, ⟨space, .reluctant⟩] ++ word name ++ [⟨notClose, .reluctant⟩, ⟨char '>', .once⟩]

/-- `<[\\s]*?\\/[\\s]*?name[\\s]*?>`. -/
def closing (name : String) : Pattern UInt16 :=
  [⟨char '<', .once⟩, ⟨space, .reluctant⟩, ⟨char '/', .once⟩, ⟨space, .reluctant⟩] ++ word name ++
    [⟨space, .reluctant⟩, ⟨char '>', .once⟩]

def element (name : String) : Pattern UInt16 := opening name ++ ⟨any, .reluctant⟩ :: closing name

def regEx_script : Pattern UInt16 := element "script"

def regEx_style : Pattern UInt16 := element "style"

/-- `<[^>]+>`. -/
def regEx_html : Pattern UInt16 := [⟨char '<', .once⟩, ⟨notClose, .greedy⟩, ⟨char '>', .once⟩]

/-- A null string makes the first matcher throw, and the text is still empty then. -/
def Html2Text : Option Chars → Chars
  | none => []
  | some htmlStr => replaceAll regEx_html (replaceAll regEx_style (replaceAll regEx_script htmlStr))

example : Units.toString (Html2Text (some (Units.ofString "a<sCript >x<b></ script>b<><<i>>c < d"))) =
    "ab<>>c < d" := by
  decide

end HtmlTagFilter

end Hella
