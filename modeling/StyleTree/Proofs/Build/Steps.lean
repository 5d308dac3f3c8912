/-
Where paths lead. Two paths name one file if they take the same steps, however
they are spelled (`Path.steps_eq_of_file?_eq`), so that two files are told
apart by their steps. The steps of a joined path are those of its parts one
after the other, and a stylesheet has one more step than the directory it is
written to; a component has at least two more.
-/
import StyleTree.Build.Run
import Mathlib.Data.List.Basic

namespace StyleTree

namespace Path

-- ========================================================== segments

/-- A slash parts the segments on its two sides. -/
theorem segments_append_slash (a b : Text) :
    segments (a ++ '/' :: b) = segments a ++ segments b :=
  List.splitOn_append_cons_self a b

/-- Without a slash there is one segment. -/
theorem segments_of_slashless {text : Text} (h : '/' ∉ text) :
    segments text = [text] :=
  List.splitOn_eq_singleton h

/-- No segment has a slash in it. -/
theorem slash_not_mem_of_mem_segments {path segment : Text}
    (h : segment ∈ segments path) : '/' ∉ segment := by
  induction path generalizing segment with
  | nil =>
    rw [List.mem_singleton.1 h]
    exact List.not_mem_nil
  | cons c rest ih =>
    rw [segments, List.splitOn_cons_eq_if_modifyHead] at h
    split at h
    · rcases List.mem_cons.1 h with rfl | hrest
      · exact List.not_mem_nil
      · exact ih hrest
    · next hc =>
      obtain ⟨first, others, hsplit⟩ :=
        List.exists_cons_of_ne_nil (List.splitOn_ne_nil '/' rest)
      rw [hsplit, List.modifyHead_cons] at h
      have hmem : ∀ s ∈ first :: others, '/' ∉ s := fun s hs =>
        ih (show s ∈ List.splitOn '/' rest from hsplit ▸ hs)
      rcases List.mem_cons.1 h with rfl | hothers
      · rw [List.mem_cons, not_or]
        exact ⟨fun heq => hc (beq_iff_eq.2 heq.symm),
          hmem first (List.mem_cons_self ..)⟩
      · exact hmem segment (List.mem_cons_of_mem _ hothers)

/-- What is put behind a path belongs to its last segment. -/
theorem exists_segments_append (path : Text) {suffix : Text}
    (h : '/' ∉ suffix) :
    ∃ before last, segments (path ++ suffix) = before ++ [last ++ suffix] := by
  induction path with
  | nil => exact ⟨[], [], segments_of_slashless h⟩
  | cons c rest ih =>
    obtain ⟨before, last, hrest⟩ := ih
    have hcons :=
      List.splitOn_cons_eq_if_modifyHead (a := '/') c (rest ++ suffix)
    rw [show List.splitOn '/' (rest ++ suffix) = _ from hrest] at hcons
    by_cases hc : (c == '/') = true
    · rw [if_pos hc] at hcons
      exact ⟨[] :: before, last, hcons⟩
    · rw [if_neg hc] at hcons
      cases before with
      | nil => exact ⟨[], c :: last, hcons⟩
      | cons first others => exact ⟨(c :: first) :: others, last, hcons⟩

-- ============================================================= joins

/-- Only the front of a path decides whether it is absolute. -/
theorem isAbsolute_append {a : Text} (h : a ≠ []) (b : Text) :
    isAbsolute (a ++ b) = isAbsolute a := by
  obtain ⟨c, rest, rfl⟩ := List.exists_cons_of_ne_nil h
  rfl

/-- An absolute path does not care from where it is seen. -/
theorem join_of_absolute {path : Text} (h : isAbsolute path = true)
    (directory : Text) : join directory path = path := by
  rw [join, h, Bool.true_or, if_pos rfl]

/-- A path in a directory is spelled behind it, with a slash in between. -/
theorem exists_join_eq {directory path : Text}
    (hpath : isAbsolute path = false)
    (hdirectory : directory ≠ []) :
    ∃ stem, join directory path = stem ++ '/' :: path
      ∧ (directory = stem ∨ directory = stem ++ ['/']) := by
  have hne : directory.isEmpty = false := by
    rw [← Bool.not_eq_true, List.isEmpty_iff]
    exact hdirectory
  rw [join, hpath, hne, Bool.or_false, if_neg Bool.false_ne_true]
  split
  · next hslash =>
    obtain ⟨stem, hstem⟩ :=
      List.getLast?_eq_some_iff.1 (beq_iff_eq.1 hslash)
    exact ⟨stem, by rw [hstem, List.append_assoc, List.singleton_append],
      .inr hstem⟩
  · exact ⟨directory, rfl, .inl rfl⟩

/-- A relative path is absolute or not as the directory is. -/
theorem isAbsolute_join {directory path : Text}
    (hpath : isAbsolute path = false) :
    isAbsolute (join directory path) = isAbsolute directory := by
  by_cases hdirectory : directory = []
  · subst hdirectory
    rw [join, List.isEmpty_nil, Bool.or_true, if_pos rfl, hpath]
    rfl
  · obtain ⟨stem, hjoin, rfl | rfl⟩ := exists_join_eq hpath hdirectory
    · rw [hjoin, isAbsolute_append hdirectory]
    · rw [hjoin, List.append_cons, isAbsolute_append hdirectory]

/-- The segments of a path that lead somewhere. -/
def named (path : Text) : List Text := (segments path).filter (!isIdle ·)

/-- The way to a path is made of its named segments, below the root if it is
absolute. -/
theorem steps_eq (path : Text) :
    steps path
      = if isAbsolute path then [] :: named path else named path := rfl

/-- Joining puts the named segments end to end. -/
theorem named_join {directory path : Text} (hpath : isAbsolute path = false) :
    named (join directory path) = named directory ++ named path := by
  by_cases hdirectory : directory = []
  · subst hdirectory
    rw [join, List.isEmpty_nil, Bool.or_true, if_pos rfl]
    rfl
  · obtain ⟨stem, hjoin, hstem⟩ := exists_join_eq hpath hdirectory
    have hnamed : named directory = named stem := by
      rcases hstem with rfl | rfl
      · rfl
      · rw [named, segments_append_slash, List.filter_append]
        exact List.append_nil _
    rw [hjoin, hnamed, named, segments_append_slash, List.filter_append]
    rfl

/-- The way to a path in a directory leads through the directory. -/
theorem steps_join {directory path : Text} (hpath : isAbsolute path = false) :
    steps (join directory path) = steps directory ++ named path := by
  rw [steps_eq, steps_eq, isAbsolute_join hpath, named_join hpath]
  split <;> rfl

/-- No step of a relative path is the root. -/
theorem nil_not_mem_named (path : Text) : [] ∉ named path := by
  intro h
  have hidle := (List.mem_filter.1 h).2
  cases hidle

-- =========================================================== parents

end Path

-- ======================================================== stylesheets

namespace Project

open StyleTree.Path

/-- The ending makes a segment out of any name. -/
theorem isIdle_cssFile (name : Text) : isIdle (cssFile name) = false := by
  have hlength : 4 ≤ (cssFile name).length := by
    rw [cssFile, List.length_append]
    exact Nat.le_add_left ..
  rw [isIdle, Bool.or_eq_false_iff]
  constructor
  · exact List.isEmpty_eq_false_iff.2 (List.ne_nil_of_length_pos (by omega))
  · refine beq_eq_false_iff_ne.2 fun heq => ?_
    rw [heq] at hlength
    exact absurd hlength (by decide)

/-- The ending does not make a name absolute. -/
theorem isAbsolute_cssFile (name : Text) :
    isAbsolute (cssFile name) = isAbsolute name := by
  cases name <;> rfl

/-- The ending stays at the end when a name is joined to a directory. -/
theorem join_cssFile (directory name : Text) :
    join directory (cssFile name) = cssFile (join directory name) := by
  unfold join
  rw [isAbsolute_cssFile]
  unfold cssFile
  split
  · rfl
  · split
    · rw [List.append_assoc]
    · rw [List.append_assoc, List.cons_append]

/-- The ending is part of the last segment. -/
theorem exists_segments_cssFile (name : Text) :
    ∃ before last, segments (cssFile name) = before ++ [cssFile last] :=
  exists_segments_append name (by decide)

/-- So a stylesheet file has a named segment. -/
theorem named_cssFile_ne_nil (name : Text) : named (cssFile name) ≠ [] := by
  obtain ⟨before, last, hsegments⟩ := exists_segments_cssFile name
  rw [named, hsegments, List.filter_append, List.filter_singleton,
    isIdle_cssFile]
  exact List.append_ne_nil_of_right_ne_nil _ (List.cons_ne_nil _ _)

/-- A name without a slash has one segment, itself with the ending. -/
theorem named_cssFile_of_slashless {name : Text} (h : '/' ∉ name) :
    named (cssFile name) = [cssFile name] := by
  have hslash : '/' ∉ cssFile name := by
    rw [cssFile, List.mem_append, not_or]
    exact ⟨h, by decide⟩
  rw [named, segments_of_slashless hslash, List.filter_singleton,
    isIdle_cssFile]
  rfl

/-- A stylesheet is a file, and its normal spelling is its steps. -/
theorem file?_cssFile (name : Text) :
    file? (cssFile name)
      = some (['/'].intercalate (steps (cssFile name))) := by
  obtain ⟨before, last, hsegments⟩ := exists_segments_cssFile name
  unfold file?
  rw [hsegments, List.getLast?_concat]
  dsimp only
  rw [isIdle_cssFile, if_neg Bool.false_ne_true]

/-- Stylesheets that are one file take the same steps. -/
theorem steps_eq_of_file?_eq {a b : Text}
    (h : file? (cssFile a) = file? (cssFile b)) :
    steps (cssFile a) = steps (cssFile b) := by
  have hsplit :
      ∀ name, List.splitOn '/' (['/'].intercalate (steps (cssFile name)))
      = steps (cssFile name) := fun name => by
    refine List.splitOn_intercalate '/' (fun step hstep => ?_) ?_
    · have hnamed : ∀ step ∈ named (cssFile name), '/' ∉ step :=
        fun step hstep =>
        slash_not_mem_of_mem_segments (List.mem_filter.1 hstep).1
      rw [steps_eq] at hstep
      split at hstep
      · rcases List.mem_cons.1 hstep with rfl | hstep
        · exact List.not_mem_nil
        · exact hnamed step hstep
      · exact hnamed step hstep
    · rw [steps_eq]
      split
      · exact List.cons_ne_nil _ _
      · exact named_cssFile_ne_nil name
  rw [file?_cssFile, file?_cssFile] at h
  rw [← hsplit a, Option.some.inj h, hsplit b]

-- ============================================= the files of a bundle

/-- The file of a stylesheet in the output directory. -/
def sheetFile (directory name : Text) : Text := join directory (cssFile name)

/-- The file of a component. -/
def componentFile (directory name : Text) : Text :=
  sheetFile (join directory Bundle.componentsName) name

/-- Sheets in one file have one way. -/
theorem steps_sheetFile_eq {a b directory directory' : Text}
    (h : file? (sheetFile directory a) = file? (sheetFile directory' b)) :
    steps (sheetFile directory a) = steps (sheetFile directory' b) := by
  unfold sheetFile at h ⊢
  rw [join_cssFile, join_cssFile] at h ⊢
  exact steps_eq_of_file?_eq h

/-- A name without a slash is relative. -/
theorem isAbsolute_of_slashless {name : Text} (h : '/' ∉ name) :
    isAbsolute name = false := by
  cases name with
  | nil => rfl
  | cons c rest =>
    refine beq_eq_false_iff_ne.2 fun heq => h ?_
    rw [← Option.some.inj heq]
    exact List.mem_cons_self ..

/-- The way to a sheet with a plain name is the way to its directory and one
step more. -/
theorem steps_sheetFile {name : Text} (h : '/' ∉ name) (directory : Text) :
    steps (sheetFile directory name) = steps directory ++ [cssFile name] := by
  have hpath : isAbsolute (cssFile name) = false :=
    (isAbsolute_cssFile name).trans (isAbsolute_of_slashless h)
  rw [sheetFile, steps_join hpath, named_cssFile_of_slashless h]

/-- No component is written over a stylesheet of the output directory: the way
to it is longer, and one with an absolute name lies in no relative
directory. -/
theorem file?_componentFile_ne {directory name : Text}
    (hlocal : isAbsolute directory = false ∨ isAbsolute name = false)
    {plain : Text} (hplain : '/' ∉ plain) :
    file? (componentFile directory name)
      ≠ file? (sheetFile directory plain) := by
  intro h
  have hsteps := steps_sheetFile_eq h
  rw [steps_sheetFile hplain] at hsteps
  have hcomponents : isAbsolute Bundle.componentsName = false := rfl
  cases hname : isAbsolute name with
  | true =>
    have hcss : isAbsolute (cssFile name) = true :=
      (isAbsolute_cssFile name).trans hname
    have hdirectory : isAbsolute directory = false :=
      hlocal.resolve_right (by rw [hname]; exact Bool.noConfusion)
    rw [sheetFile, join_of_absolute hcss, steps_eq, if_pos hcss,
      steps_eq directory, hdirectory, if_neg Bool.false_ne_true] at hsteps
    -- an absolute way starts with the empty step, which has no name
    have hroot : [] ∈ named directory ++ [cssFile plain] :=
      hsteps ▸ List.mem_cons_self ..
    rcases List.mem_append.1 hroot with hroot | hroot
    · exact nil_not_mem_named directory hroot
    · have hidle := isIdle_cssFile plain
      rw [← List.mem_singleton.1 hroot] at hidle
      cases hidle
  | false =>
    have hcss : isAbsolute (cssFile name) = false :=
      (isAbsolute_cssFile name).trans hname
    rw [sheetFile, steps_join hcss, steps_join hcomponents,
      List.append_assoc] at hsteps
    -- the way to the component has the name of its directory in it as well
    have hnamed := congrArg List.length (List.append_cancel_left hsteps)
    have hpos := List.length_pos_of_ne_nil (named_cssFile_ne_nil name)
    rw [List.length_append, List.length_singleton,
      show (named Bundle.componentsName).length = 1 from rfl] at hnamed
    omega

end Project

end StyleTree
