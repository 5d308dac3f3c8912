/-
Text as a list of characters. Every scan of this library walks a text from the
left with a small state, so lists keep each of them a plain structural
recursion, and the standard library's `List.intercalate` and `List.splitOnP`
join and cut texts without a second vocabulary. Substitution, the order of
texts, their size and their first line are added here.
-/
namespace StyleTree

/-- A text is its characters, in order. -/
abbrev Text := List Char

namespace Text

/-- Puts `substitute` in place of every `c`. -/
def replace (text : Text) (c : Char) (substitute : Text) : Text :=
  text.flatMap fun d => if d = c then substitute else [d]

@[simp] theorem replace_nil (c : Char) (substitute : Text) :
    replace [] c substitute = [] := rfl

/-- Substitution goes character by character. -/
theorem replace_append (a b : Text) (c : Char) (substitute : Text) :
    replace (a ++ b) c substitute
      = replace a c substitute ++ replace b c substitute :=
  List.flatMap_append ..

/-- Whether a text comes before another one or is equal to it, by the code
points of their characters. -/
def notAfter : Text → Text → Bool
  | [], _ => true
  | _ :: _, [] => false
  | a :: as, b :: bs => a.toNat < b.toNat || (a == b && notAfter as bs)

/-- The number of bytes that a text takes up in UTF-8. -/
def byteSize (text : Text) : Nat :=
  text.foldr (fun c size => c.utf8Size + size) 0

/-- The first line of a text that is followed by a line feed. A carriage return
at its end belongs to the line end. -/
def firstLine (text : Text) : Text :=
  let line := text.takeWhile (· != '\n')
  if line.getLast? == some '\r' then line.dropLast else line

example : firstLine "first\r\nsecond".toList = "first".toList := by decide

example : firstLine "only".toList = "only".toList := by decide

end Text

end StyleTree
