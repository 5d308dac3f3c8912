/-
The two ways from a document to a style tree lead to the same one. Read
straight from the document, members are written into the style object one by
one, so that a repeated key meets the one before it there. Read from data,
repeated keys have met in the data already, where values were not style values
yet, and the entries of the data are written once more. The second writing
changes nothing, because the keys of a map are distinct
(`Entries.ofList_eq_self`), and whether values change their kind before or
after they are written does not matter (`Entries.mapValues_extend`).

The induction is over the document. For the members of an object it is about
the style object so far, whatever is in it. Where there is no value, both ways
stop: both visit every member, also those that later ones replace.

What is read from a text is read from the document that the text spells
(`Sheet.decode_eq_ok_iff`).
-/
import StyleTree.Proofs.Fault
import StyleTree.Style.Decode

namespace StyleTree

open Json

-- ====================================================== data to values

/-- Data is turned into a style entry by entry. -/
theorem entriesOfData_eq (entries : List (Text × Data)) :
    entriesOfData entries = Entries.mapValues Value.ofData entries := by
  induction entries with
  | nil => rfl
  | cons entry rest ih =>
    rw [entriesOfData, entryOfData, ih]
    rfl

/-- An object from data that was collected from pairs is the style object that
is collected from them. -/
theorem Value.ofData_object_ofList (pairs : List (Text × Data)) :
    Value.ofData (.object (Entries.ofList pairs))
      = .object (Entries.ofList (entriesOfData pairs)) := by
  have hdistinct :=
    Entries.distinct_ofList (Entries.mapValues Value.ofData pairs)
  rw [Value.ofData, entriesOfData_eq, entriesOfData_eq, Entries.ofList,
    Entries.ofList, Entries.mapValues_extend, Entries.mapValues_nil]
  exact congrArg Value.object (Entries.ofList_eq_self hdistinct)

-- ============================================== document to values

mutual

/-- A value is read from a document as it is read from the data of it. -/
theorem Value.ofDocument?_eq (document : Document) :
    Value.ofDocument? document
      = (Data.ofDocument? document).map Value.ofData := by
  cases document with
  | null => rfl
  | bool flag => rfl
  | number value =>
    rw [Value.ofDocument?, Data.ofDocument?, Option.map_map]
    rfl
  | string pieces =>
    rw [Value.ofDocument?, Data.ofDocument?, Option.map_map]
    rfl
  | array items =>
    rw [Value.ofDocument?, Data.ofDocument?, valuesOfItems?_eq, Option.map_map,
      Option.map_map]
    rfl
  | object members =>
    rw [Value.ofDocument?, Data.ofDocument?, writeMembers?_eq, Option.map_map,
      Option.map_map]
    congr 1
    funext pairs
    exact (Value.ofData_object_ofList pairs).symm
termination_by structural document

theorem valuesOfItems?_eq (items : List Document) :
    valuesOfItems? items = (dataOfItems? items).map valuesOfData := by
  cases items with
  | nil => rfl
  | cons item rest =>
    rw [valuesOfItems?, dataOfItems?, Value.ofDocument?_eq, valuesOfItems?_eq]
    cases Data.ofDocument? item with
    | none => rfl
    | some data => cases dataOfItems? rest <;> rfl
termination_by structural items

/-- Members are written into a style object as their data is. -/
theorem writeMembers?_eq (style : Style)
    (members : List (List Piece × Document)) :
    writeMembers? style members
      = (dataOfMembers? members).map fun pairs =>
          Entries.extend style (entriesOfData pairs) := by
  cases members with
  | nil => rfl
  | cons member rest =>
    rw [writeMembers?, dataOfMembers?, writeMember?_eq]
    cases dataOfMember? member with
    | none => rfl
    | some entry =>
      obtain ⟨key, data⟩ := entry
      show writeMembers? (Entries.insert style key (Value.ofData data)) rest
          = _
      rw [writeMembers?_eq]
      cases dataOfMembers? rest <;> rfl
termination_by structural members

/-- A member is read alike on both routes, and written under its key. -/
theorem writeMember?_eq (style : Style) (member : List Piece × Document) :
    writeMember? style member
      = (dataOfMember? member).map fun entry =>
          Entries.insert style entry.1 (Value.ofData entry.2) := by
  cases member with
  | mk key document =>
    rw [writeMember?, dataOfMember?, Value.ofDocument?_eq]
    cases Json.text? key with
    | none => rfl
    | some text => cases Data.ofDocument? document <;> rfl
termination_by structural member

end

/-- A style is read from a document as from its data, and neither route reads
what the other one does not. -/
theorem Style.ofDocument?_eq (document : Document) :
    Style.ofDocument? document
      = (Data.ofDocument? document).bind Style.ofData? := by
  unfold Style.ofDocument?
  rw [Value.ofDocument?_eq, Option.bind_map]
  rfl

/-- So is a sheet. -/
theorem Sheet.ofDocument?_eq (document : Document) :
    Sheet.ofDocument? document
      = (Data.ofDocument? document).bind Sheet.ofData? := by
  unfold Sheet.ofDocument?
  rw [Style.ofDocument?_eq, Option.map_bind]
  rfl

/-- A value, a style object and a sheet are read straight from a document if
and only if they are read from its data, and they are the same ones. -/
theorem decoded_alike (document : Document) :
    Value.ofDocument? document = (Data.ofDocument? document).map Value.ofData
    ∧ Style.ofDocument? document
      = (Data.ofDocument? document).bind Style.ofData?
    ∧ Sheet.ofDocument? document
      = (Data.ofDocument? document).bind Sheet.ofData? :=
  ⟨Value.ofDocument?_eq document, Style.ofDocument?_eq document,
    Sheet.ofDocument?_eq document⟩

/-- A selector whose last entry is no style object has none. -/
example : Sheet.ofDocument? (.object [([.char 'a'], .object []),
    ([.char 'b'], .object []), ([.char 'a'], .null)]) = some [(['b'], [])] :=
  rfl

-- ========================================================== texts

variable {text : Text}

/-- What is read from a text is what its document describes, if that is not
nested too deeply. -/
theorem Value.decode_eq_ok_iff {value : Value} :
    Value.decode text = .ok value
      ↔ ∃ document, Document.ofText? text = some document
        ∧ document.depth ≤ depthLimit
        ∧ Value.ofDocument? document = some value := by
  unfold Value.decode
  cases Document.ofText? text with
  | none => simp
  | some document =>
    by_cases hdepth : depthLimit < document.depth
    · simp [hdepth, Nat.not_le_of_lt hdepth]
    · cases hvalue : Value.ofDocument? document <;>
        simp [hdepth, hvalue, Nat.le_of_not_lt hdepth]

/-- A text is decoded if it is a document, not too deep, that is read as a
style. -/
theorem Style.decode_eq_ok_iff {style : Style} :
    Style.decode text = .ok style
      ↔ ∃ document, Document.ofText? text = some document
        ∧ document.depth ≤ depthLimit
        ∧ Style.ofDocument? document = some style := by
  unfold Style.decode Style.ofDocument?
  simp only [Option.bind_eq_some_iff]
  constructor
  · intro h
    obtain ⟨value, hvalue, hstyle⟩ := bind_eq_ok_iff.1 h
    obtain ⟨document, htext, hdepth, hdocument⟩ :=
      Value.decode_eq_ok_iff.1 hvalue
    refine ⟨document, htext, hdepth, value, hdocument, ?_⟩
    split at hstyle
    · next hobject => rw [hobject, Except.ok.inj hstyle]
    · cases hstyle
  · rintro ⟨document, htext, hdepth, value, hdocument, hstyle⟩
    refine bind_eq_ok_iff.2 ⟨value,
      Value.decode_eq_ok_iff.2 ⟨document, htext, hdepth, hdocument⟩, ?_⟩
    rw [hstyle]
    rfl

theorem Sheet.decode_eq_ok_iff {sheet : Sheet} :
    Sheet.decode text = .ok sheet
      ↔ ∃ document, Document.ofText? text = some document
        ∧ document.depth ≤ depthLimit
        ∧ Sheet.ofDocument? document = some sheet := by
  unfold Sheet.ofDocument?
  simp only [Option.map_eq_some_iff]
  constructor
  · intro h
    obtain ⟨style, hstyle, hsheet⟩ := bind_eq_ok_iff.1 h
    obtain ⟨document, htext, hdepth, hdocument⟩ :=
      Style.decode_eq_ok_iff.1 hstyle
    exact ⟨document, htext, hdepth, style, hdocument, Except.ok.inj hsheet⟩
  · rintro ⟨document, htext, hdepth, style, hdocument, rfl⟩
    exact bind_eq_ok_iff.2 ⟨style,
      Style.decode_eq_ok_iff.2 ⟨document, htext, hdepth, hdocument⟩, rfl⟩

end StyleTree
