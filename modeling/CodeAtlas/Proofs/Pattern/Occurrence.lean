import CodeAtlas.Pattern.RegexReader
import CodeAtlas.Proofs.Files.Segments

/-!
# Where an expression occurs

An expression occurs in a text if it matches at some place of it (`occursIn_iff`). Two forms of
expression are of interest for paths: `(^|/)w(/|$)`, which asks for a segment, and `w$`, which asks for
an ending. Both look at the text of a path, where segments are not to be seen. For a path of names they
come to a question about names: a segment is one of the names (`occursIn_segment_intercalate`), and
an ending is one of the last name (`occursIn_ending_intercalate`).

The end of a text is also before a line feed that ends it. So the last name may have one more character
than was asked for.
-/

namespace CodeAtlas

namespace Pattern.Regex

variable {r s : Regex} {p : Place} {k : Onward} {w : List Char}

/-! ## Matching somewhere -/

theorem occursFrom_iff {before text : List Char} : r.occursFrom before text = true
    ↔ ∃ pre post, text = pre ++ post ∧
      (r.run ⟨pre.reverse ++ before, post, []⟩ some).isSome = true := by
  induction text generalizing before with
  | nil =>
    rw [occursFrom]
    constructor
    · exact fun h ↦ ⟨[], [], rfl, h⟩
    · rintro ⟨pre, post, htext, h⟩
      obtain ⟨rfl, rfl⟩ := List.append_eq_nil_iff.mp htext.symm
      exact h
  | cons c text ih =>
    rw [occursFrom, Bool.or_eq_true, ih]
    constructor
    · rintro (h | ⟨pre, post, rfl, h⟩)
      · exact ⟨[], _, rfl, h⟩
      · exact ⟨c :: pre, post, rfl, by rwa [List.reverse_cons, List.append_assoc]⟩
    · rintro ⟨pre, post, htext, h⟩
      cases pre with
      | nil =>
        obtain rfl : c :: text = post := htext
        exact Or.inl h
      | cons d pre =>
        obtain ⟨rfl, rfl⟩ := List.cons.inj htext
        rw [List.reverse_cons, List.append_assoc] at h
        exact Or.inr ⟨pre, post, rfl, h⟩

/-- **An expression occurs** in a text if it matches between two parts of it. -/
theorem occursIn_iff {text : String} : r.occursIn text = true ↔ ∃ pre post,
    text.toList = pre ++ post ∧ (r.run ⟨pre.reverse, post, []⟩ some).isSome = true := by
  simp only [occursIn, occursFrom_iff, List.append_nil]

/-! ## Matching at a place -/

theorem isSome_run_alt :
    ((alt r s).run p k).isSome = true ↔ (r.run p k).isSome = true ∨ (s.run p k).isSome = true := by
  rw [run]
  cases r.run p k with
  | none => simp
  | some q => simp

theorem isSome_run_at {holds : Place → Bool} :
    ((Regex.at holds).run p k).isSome = true ↔ holds p = true ∧ (k p).isSome = true := by
  rw [run]
  split
  · rename_i h
    rw [iff_true_intro h, true_and]
  · rename_i h
    simp [h]

theorem isSome_run_textStart :
    (textStart.run p k).isSome = true ↔ p.before = [] ∧ (k p).isSome = true := by
  rw [textStart, isSome_run_at, List.isEmpty_iff]

theorem isSome_run_textEnd :
    (textEnd.run p k).isSome = true ↔ (p.after = [] ∨ p.after = ['\n']) ∧ (k p).isSome = true := by
  rw [textEnd, isSome_run_at, Bool.or_eq_true, List.isEmpty_iff, beq_iff_eq]

theorem isSome_run_literal {c : Char} :
    ((RegexReader.literal .none c.toNat).run p k).isSome = true
      ↔ ∃ rest, p.after = c :: rest ∧ (k ⟨c :: p.before, rest, p.groups⟩).isSome = true := by
  have hholds (d : Char) : (RegexReader.ClassItem.range c.toNat c.toNat).holds .none d = true
      ↔ d = c := by
    simp only [RegexReader.ClassItem.holds, RegexFlags.none, Bool.false_eq_true, if_false,
      Bool.and_eq_true, decide_eq_true_eq, Char.toNat_inj.symm]
    omega
  obtain ⟨before, after, groups⟩ := p
  cases after with
  | nil => simp [RegexReader.literal, run]
  | cons d rest =>
    rcases eq_or_ne d c with rfl | hne
    · simp [RegexReader.literal, run, (hholds _).mpr rfl, Place.next]
    · simp [RegexReader.literal, run, (hholds _).not.mpr hne, hne]

/-- Characters, and behind them an expression. -/
def word (w : List Char) (r : Regex) : Regex :=
  w.foldr (fun c r ↦ seq (RegexReader.literal .none c.toNat) r) r

theorem isSome_run_word : ((word w r).run p k).isSome = true
    ↔ ∃ rest, p.after = w ++ rest ∧
      (r.run ⟨w.reverse ++ p.before, rest, p.groups⟩ k).isSome = true := by
  induction w generalizing p with
  | nil => simp [word]
  | cons c w ih =>
    have hword : word (c :: w) r = seq (RegexReader.literal .none c.toNat) (word w r) := rfl
    rw [hword, run, isSome_run_literal]
    simp only [ih, List.cons_append, List.reverse_cons, List.append_assoc, List.nil_append]
    constructor
    · rintro ⟨_, hafter, rest, rfl, h⟩
      exact ⟨rest, hafter, h⟩
    · rintro ⟨rest, hafter, h⟩
      exact ⟨_, hafter, rest, rfl, h⟩

/-! ## Segments -/

def slash : Regex := RegexReader.literal .none '/'.toNat

theorem isSome_run_slash : (slash.run p k).isSome = true
    ↔ ∃ rest, p.after = '/' :: rest ∧ (k ⟨'/' :: p.before, rest, p.groups⟩).isSome = true :=
  isSome_run_literal

/-- The expression `(^|/)w(/|$)`. -/
def segment (w : List Char) : Regex :=
  seq (group 1 (alt textStart slash)) (word w (group 2 (alt slash textEnd)))

theorem occursIn_segment {text : String} : (segment w).occursIn text = true ↔ ∃ pre post,
    text.toList = pre ++ (w ++ post) ∧ (pre = [] ∨ ∃ a, pre = a ++ ['/']) ∧
      (post = [] ∨ post = ['\n'] ∨ ∃ b, post = '/' :: b) := by
  have hend (q : Place) : ((group 2 (alt slash textEnd)).run q some).isSome = true
      ↔ q.after = [] ∨ q.after = ['\n'] ∨ ∃ b, q.after = '/' :: b := by
    rw [run, isSome_run_alt, isSome_run_slash, isSome_run_textEnd]
    simp only [Option.isSome_some, and_true, or_assoc, or_comm]
  have hrest (q : Place) : ((word w (group 2 (alt slash textEnd))).run q some).isSome = true
      ↔ ∃ post, q.after = w ++ post ∧ (post = [] ∨ post = ['\n'] ∨ ∃ b, post = '/' :: b) := by
    simp only [isSome_run_word, hend]
  have hrun (before after : List Char) : ((segment w).run ⟨before, after, []⟩ some).isSome = true
      ↔ (before = [] ∧ ∃ post, after = w ++ post ∧
            (post = [] ∨ post = ['\n'] ∨ ∃ b, post = '/' :: b)) ∨
          ∃ rest, after = '/' :: rest ∧ ∃ post, rest = w ++ post ∧
            (post = [] ∨ post = ['\n'] ∨ ∃ b, post = '/' :: b) := by
    rw [segment, run, run, isSome_run_alt, isSome_run_textStart, isSome_run_slash]
    simp only [hrest]
  rw [occursIn_iff]
  simp only [hrun, List.reverse_eq_nil_iff]
  constructor
  · rintro ⟨pre, after, htext, ⟨rfl, post, rfl, hpost⟩ | ⟨rest, rfl, post, rfl, hpost⟩⟩
    · exact ⟨[], post, htext, Or.inl rfl, hpost⟩
    · exact ⟨pre ++ ['/'], post, by rw [htext, List.append_assoc]; rfl, Or.inr ⟨pre, rfl⟩, hpost⟩
  · rintro ⟨pre, post, htext, rfl | ⟨a, rfl⟩, hpost⟩
    · exact ⟨[], _, htext, Or.inl ⟨rfl, post, rfl, hpost⟩⟩
    · exact ⟨a, '/' :: (w ++ post), by rw [htext, List.append_assoc]; rfl,
        Or.inr ⟨_, rfl, post, rfl, hpost⟩⟩

/-- **A segment of joined names** is one of them, or the last one but for a line feed. -/
theorem occursIn_segment_intercalate {w : String} {names : List String} (hw : '/' ∉ w.toList)
    (h : ∀ name ∈ names, '/' ∉ name.toList) (hne : names ≠ []) :
    (segment w.toList).occursIn (String.intercalate "/" names) = true
      ↔ w ∈ names ∨ names.getLast hne = w ++ "\n" := by
  have hmem : w ∈ names ↔ w.toList ∈ names.map String.toList :=
    (List.mem_map_of_injective fun _ _ ↦ String.toList_injective).symm
  rw [occursIn_segment]
  constructor
  · rintro ⟨pre, post, htext, hpre, hpost⟩
    -- what stands before `w` is made of whole pieces
    obtain ⟨above, habove⟩ : ∃ above,
        names.map String.toList = above ++ Path.pieces (w.toList ++ post) := by
      rw [← Path.pieces_intercalate h hne, htext]
      rcases hpre with rfl | ⟨a, rfl⟩
      · exact ⟨[], rfl⟩
      · exact ⟨Path.pieces a, by
          rw [List.append_assoc, List.singleton_append, Path.pieces_append_slash]⟩
    rcases hpost with rfl | rfl | ⟨b, rfl⟩
    · rw [List.append_nil, Path.pieces_of_slashless hw] at habove
      exact Or.inl (hmem.mpr (by simp [habove]))
    · have hslash : '/' ∉ w.toList ++ ['\n'] := by simp [hw]
      rw [Path.pieces_of_slashless hslash] at habove
      refine Or.inr (String.toList_injective ?_)
      rw [← List.getLast_map (f := String.toList) (by simpa using hne)]
      simp [habove]
    · rw [Path.pieces_append_slash, Path.pieces_of_slashless hw] at habove
      exact Or.inl (hmem.mpr (by simp [habove]))
  · rintro (hname | hlast)
    · obtain ⟨above, below, rfl⟩ := List.append_of_mem hname
      refine ⟨_, _, Path.toList_intercalate above w below, Path.flatMap_slash_eq above, ?_⟩
      cases below with
      | nil => exact Or.inl rfl
      | cons name below => exact Or.inr (Or.inr ⟨_, rfl⟩)
    · obtain ⟨above, name, rfl⟩ := (List.eq_nil_or_concat' names).resolve_left hne
      rw [List.getLast_append_singleton] at hlast
      refine ⟨_, _, ?_, Path.flatMap_slash_eq above, Or.inr (Or.inl rfl)⟩
      rw [Path.toList_intercalate above name [], hlast, List.flatMap_nil, List.append_nil,
        String.toList_append]
      rfl

/-! ## Endings -/

/-- The expression `w$`. -/
def ending (w : List Char) : Regex := word w textEnd

theorem occursIn_ending {text : String} : (ending w).occursIn text = true
    ↔ w <:+ text.toList ∨ w ++ ['\n'] <:+ text.toList := by
  simp only [occursIn_iff, ending, isSome_run_word, isSome_run_textEnd, Option.isSome_some, and_true]
  constructor
  · rintro ⟨pre, _, htext, _, rfl, rfl | rfl⟩
    · exact Or.inl ⟨pre, by rw [htext, List.append_nil]⟩
    · exact Or.inr ⟨pre, htext.symm⟩
  · rintro (⟨pre, htext⟩ | ⟨pre, htext⟩)
    · exact ⟨pre, w, htext.symm, [], (List.append_nil w).symm, Or.inl rfl⟩
    · exact ⟨pre, w ++ ['\n'], htext.symm, ['\n'], rfl, Or.inr rfl⟩

/-- **An ending of joined names** is an ending of the last one. -/
theorem occursIn_ending_intercalate {w : List Char} {names : List String} (hw : '/' ∉ w)
    (hne : names ≠ []) : (ending w).occursIn (String.intercalate "/" names) = true
      ↔ (ending w).occursIn (names.getLast hne) = true := by
  obtain ⟨above, name, rfl⟩ := (List.eq_nil_or_concat' names).resolve_left hne
  have hwide : '/' ∉ w ++ ['\n'] := by simp [hw]
  rw [occursIn_ending, occursIn_ending, List.getLast_append_singleton,
    Path.suffix_intercalate_iff hw, Path.suffix_intercalate_iff hwide]

end Pattern.Regex

end CodeAtlas
