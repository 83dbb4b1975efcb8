import CodeAtlas.Proofs.Text.Marks

/-!
# Blocks of reasoning

A model that reasons writes its thoughts between two marks, as often as it likes, and only what
stands around the blocks is meant for the reader. Removed from a reply is each block from its
opening mark to the next closing one, so a thought may hold anything but a closing mark: line
breaks, and further opening marks.

A reply is written down here as a text with *passages* behind it, each of them a thought and the
text up to the next one. At the seams two things might go wrong. The end of a text might run together
with the mark behind it, so that an opening mark is seen too early; but the first character of a
mark does not come back in it. And the texts on the two sides of a block might together spell a
mark; but what has been passed is not looked at again (`dropReasoning_block`).

So the blocks of a reply are removed and nothing else is (`withoutReasoning_written`). Every text is
a reply of this kind, up to a block that is begun and never closed, which stays
(`exists_eq_written`).
-/

namespace CodeAtlas.Reply

open Text (trim)

/-! ## Passages -/

/-- A thought, and the text behind it up to the next one. -/
structure Passage where
  thought : String
  after : String

/-- The passage with its marks. -/
def Passage.text (p : Passage) : String := "<think>" ++ p.thought ++ "</think>" ++ p.after

/-- A reply as the model writes it. -/
def written (start : String) (passages : List Passage) : String :=
  start ++ String.join (passages.map Passage.text)

/-- A reply as the reader gets it. -/
def spoken (start : String) (passages : List Passage) : String :=
  start ++ String.join (passages.map Passage.after)

/-- The texts do not open a block, and the thoughts do not close one. -/
structure Parted (start : String) (passages : List Passage) : Prop where
  start : ¬ reasoningStart <:+: start.toList
  after : ∀ p ∈ passages, ¬ reasoningStart <:+: p.after.toList
  thought : ∀ p ∈ passages, ¬ reasoningEnd <:+: p.thought.toList

theorem Parted.cons {start : String} {p : Passage} {passages : List Passage}
    (hstart : ¬ reasoningStart <:+: start.toList) (hthought : ¬ reasoningEnd <:+: p.thought.toList)
    (h : Parted p.after passages) : Parted start (p :: passages) where
  start := hstart
  after := List.forall_mem_cons.mpr ⟨h.start, h.after⟩
  thought := List.forall_mem_cons.mpr ⟨hthought, h.thought⟩

theorem Parted.tail {start : String} {p : Passage} {passages : List Passage}
    (h : Parted start (p :: passages)) : Parted p.after passages where
  start := h.after p List.mem_cons_self
  after q hq := h.after q (List.mem_cons_of_mem _ hq)
  thought q hq := h.thought q (List.mem_cons_of_mem _ hq)

theorem toList_written_nil (start : String) : (written start []).toList = start.toList := by
  rw [written, List.map_nil, String.join_nil, String.append_empty]

theorem toList_written_cons (start : String) (p : Passage) (passages : List Passage) :
    (written start (p :: passages)).toList = start.toList ++ (reasoningStart ++
      (p.thought.toList ++ (reasoningEnd ++ (written p.after passages).toList))) := by
  rw [written, List.map_cons, String.join_cons, Passage.text]
  simp only [String.toList_append, List.append_assoc, written]
  rfl

theorem toList_spoken_nil (start : String) : (spoken start []).toList = start.toList := by
  rw [spoken, List.map_nil, String.join_nil, String.append_empty]

theorem toList_spoken_cons (start : String) (p : Passage) (passages : List Passage) :
    (spoken start (p :: passages)).toList = start.toList ++ (spoken p.after passages).toList := by
  rw [spoken, List.map_cons, String.join_cons, String.toList_append, String.toList_append, spoken,
    String.toList_append]

/-! ## Removing blocks -/

variable {before thought after rest tail : List Char}

theorem cut?_reasoningStart (h : ¬ reasoningStart <:+: before) (after : List Char) :
    cut? reasoningStart (before ++ (reasoningStart ++ after)) = some (before, after) :=
  cut?_append (not_infix_append_dropLast (by decide) h)

theorem cut?_reasoningEnd (h : ¬ reasoningEnd <:+: thought) (after : List Char) :
    cut? reasoningEnd (thought ++ (reasoningEnd ++ after)) = some (thought, after) :=
  cut?_append (not_infix_append_dropLast (by decide) h)

/-- The first block goes, and the search goes on behind it. -/
theorem dropReasoning_block (hbefore : ¬ reasoningStart <:+: before)
    (hthought : ¬ reasoningEnd <:+: thought) :
    dropReasoning (before ++ (reasoningStart ++ (thought ++ (reasoningEnd ++ after))))
      = before ++ dropReasoning after := by
  have hstart := cut?_reasoningStart hbefore (thought ++ (reasoningEnd ++ after))
  have hend := cut?_reasoningEnd hthought after
  rw [dropReasoning]
  split
  · rename_i hnone
    exact absurd (hstart.symm.trans hnone) (by simp)
  · rename_i before' rest hsome
    obtain ⟨rfl, rfl⟩ := Prod.mk.inj (Option.some.inj (hstart.symm.trans hsome))
    split
    · rename_i hnone
      exact absurd (hend.symm.trans hnone) (by simp)
    · rename_i thought' after' hsome
      obtain ⟨-, rfl⟩ := Prod.mk.inj (Option.some.inj (hend.symm.trans hsome))
      rfl

/-- A block that is not closed stays. -/
theorem dropReasoning_unclosed (hbefore : ¬ reasoningStart <:+: before)
    (hrest : ¬ reasoningEnd <:+: rest) :
    dropReasoning (before ++ (reasoningStart ++ rest)) = before ++ (reasoningStart ++ rest) := by
  have hstart := cut?_reasoningStart hbefore rest
  have hend : cut? reasoningEnd rest = none := cut?_eq_none_iff.mpr hrest
  rw [dropReasoning]
  split
  · rfl
  · rename_i before' rest' hsome
    obtain ⟨rfl, rfl⟩ := Prod.mk.inj (Option.some.inj (hstart.symm.trans hsome))
    split
    · rfl
    · rename_i hclosed
      exact absurd (hend.symm.trans hclosed) (by simp)

/-- Nothing, or a block that is not closed. -/
def IsUnclosed (tail : List Char) : Prop :=
  tail = [] ∨ ∃ rest, tail = reasoningStart ++ rest ∧ ¬ reasoningEnd <:+: rest

theorem dropReasoning_written_append {start : String} {passages : List Passage}
    (h : Parted start passages) (htail : IsUnclosed tail) :
    dropReasoning ((written start passages).toList ++ tail)
      = (spoken start passages).toList ++ tail := by
  induction passages generalizing start with
  | nil =>
    rw [toList_written_nil, toList_spoken_nil]
    obtain rfl | ⟨rest, rfl, hrest⟩ := htail
    · rw [List.append_nil]
      exact dropReasoning_eq_self h.start
    · exact dropReasoning_unclosed h.start hrest
  | cons p passages ih =>
    rw [toList_written_cons, toList_spoken_cons]
    simp only [List.append_assoc]
    rw [dropReasoning_block h.start (h.thought p List.mem_cons_self), ih h.tail]

/-- **Every block of reasoning is removed from a reply, and nothing else**, up to the blanks at the
two ends. -/
theorem withoutReasoning_written (start : String) (passages : List Passage)
    (hstart : ¬ reasoningStart <:+: start.toList)
    (hafter : ∀ p ∈ passages, ¬ reasoningStart <:+: p.after.toList)
    (hthought : ∀ p ∈ passages, ¬ reasoningEnd <:+: p.thought.toList) :
    withoutReasoning (written start passages) = trim (spoken start passages) := by
  have hdrop := dropReasoning_written_append ⟨hstart, hafter, hthought⟩ (Or.inl rfl)
  rw [List.append_nil, List.append_nil] at hdrop
  rw [withoutReasoning, hdrop, trim]

/-- A thought of two lines with an opening mark in it and half a closing one, and an empty thought.
Around the first one the two texts spell an opening mark, and behind the second one stands a closing
mark. -/
theorem withoutReasoning_written_seams :
    let passages : List Passage := [⟨"Maybe\n<think> b </thin", "k>c\n"⟩, ⟨"", "</think> d "⟩]
    (¬ reasoningStart <:+: " a <thin".toList ∧
      (∀ p ∈ passages, ¬ reasoningStart <:+: p.after.toList) ∧
      ∀ p ∈ passages, ¬ reasoningEnd <:+: p.thought.toList) ∧
    withoutReasoning (" a <thin<think>Maybe\n<think> b </thin</think>k>c\n"
      ++ "<think></think></think> d ") = "a <think>c\n</think> d" := by
  intro passages
  have hstart : ¬ reasoningStart <:+: " a <thin".toList := by decide
  have hafter : ∀ p ∈ passages, ¬ reasoningStart <:+: p.after.toList := by decide
  have hthought : ∀ p ∈ passages, ¬ reasoningEnd <:+: p.thought.toList := by decide
  refine ⟨⟨hstart, hafter, hthought⟩, ?_⟩
  have hwritten := withoutReasoning_written " a <thin" passages hstart hafter hthought
  have hspoken : trim (spoken " a <thin" passages) = "a <think>c\n</think> d" := by
    decide +kernel
  exact hwritten.trans hspoken

/-! ## Every text is a reply -/

/-- A text is a sequence of passages, up to a block that is not closed. -/
theorem exists_parted (cs : List Char) : ∃ start passages tail,
    cs = (written start passages).toList ++ tail ∧ Parted start passages ∧ IsUnclosed tail := by
  -- The cases are those of the search: no block, a block that is not closed, a block and the rest.
  fun_induction dropReasoning cs with
  | case1 cs hstart =>
    refine ⟨String.ofList cs, [], [], ?_, ⟨?_, by simp, by simp⟩, Or.inl rfl⟩
    · rw [toList_written_nil, String.toList_ofList, List.append_nil]
    · rw [String.toList_ofList]
      exact cut?_eq_none_iff.mp hstart
  | case2 cs before rest hstart hend =>
    refine ⟨String.ofList before, [], reasoningStart ++ rest, ?_, ⟨?_, by simp, by simp⟩,
      Or.inr ⟨rest, rfl, cut?_eq_none_iff.mp hend⟩⟩
    · rw [toList_written_nil, String.toList_ofList]
      exact eq_append_of_cut? hstart
    · rw [String.toList_ofList]
      exact not_infix_of_cut? (by decide) hstart
  | case3 cs before rest hstart thought after hend ih =>
    obtain ⟨start, passages, tail, hafter, hparted, htail⟩ := ih
    refine ⟨String.ofList before, ⟨String.ofList thought, start⟩ :: passages, tail, ?_,
      .cons ?_ ?_ hparted, htail⟩
    · rw [toList_written_cons, String.toList_ofList, String.toList_ofList]
      simp only [List.append_assoc]
      rw [← hafter, ← eq_append_of_cut? hend, ← eq_append_of_cut? hstart]
    · rw [String.toList_ofList]
      exact not_infix_of_cut? (by decide) hstart
    · rw [String.toList_ofList]
      exact not_infix_of_cut? (by decide) hend

/-- **What stays of any text**: its blocks are removed up to one that is never closed, and from there
on the text is kept. -/
theorem exists_eq_written (text : String) : ∃ start passages tail,
    text = written start passages ++ tail ∧ Parted start passages ∧ IsUnclosed tail.toList ∧
      withoutReasoning text = trim (spoken start passages ++ tail) := by
  obtain ⟨start, passages, tail, htext, hparted, htail⟩ := exists_parted text.toList
  have hdrop := dropReasoning_written_append hparted htail
  refine ⟨start, passages, String.ofList tail, ?_, hparted, by rwa [String.toList_ofList], ?_⟩
  · rw [← String.toList_inj, String.toList_append, String.toList_ofList]
    exact htext
  · rw [withoutReasoning, htext, hdrop, trim, String.toList_append, String.toList_ofList]

end CodeAtlas.Reply
