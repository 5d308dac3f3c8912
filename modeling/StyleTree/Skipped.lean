/-
Entries that contribute nothing to the output although they were meant to.
Leaving one out is never silent: it is recorded with the selector it stood
under, its key as it was written, and the reason.
-/
import StyleTree.Text.Basic

namespace StyleTree

/-- Why an entry was left out. -/
inductive SkipReason where
  /-- The key is a condition but its value is no object. -/
  | conditionalNotObject
  /-- The key is the reserved one for the enclosing selector but its value is
  no object. -/
  | selfNotObject
  /-- The value is an object but the key names no selector. -/
  | emptySelector
  /-- The key is an at-rule of another kind. -/
  | unsupportedAtRule
  /-- The value has no CSS form. -/
  | invalidValue
  /-- The entry stands directly under a keyword that needs a condition. -/
  | missingCondition
  deriving DecidableEq, Repr

/-- The wording of a reason. -/
def SkipReason.message : SkipReason → Text
  | conditionalNotObject => "conditional rule value is not an object".toList
  | selfNotObject => "`self` value is not an object".toList
  | emptySelector => "empty selector fragment".toList
  | unsupportedAtRule => "unsupported at-rule".toList
  | invalidValue => "value has no CSS representation".toList
  | missingCondition => "at-rule has no condition".toList

/-- An entry that was left out. -/
structure SkippedEntry where
  selector : Text
  key : Text
  reason : SkipReason
  deriving DecidableEq, Repr

/-- The wording of a diagnostic. -/
def SkippedEntry.message (entry : SkippedEntry) : Text :=
  '`' :: entry.key ++ "` under `".toList ++ entry.selector ++ "`: ".toList
    ++ entry.reason.message

end StyleTree
