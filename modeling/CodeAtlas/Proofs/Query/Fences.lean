import CodeAtlas.Proofs.Text.Marks

/-!
# Fenced blocks

A model puts its query into a fenced block, with the name of the language behind the opening fence,
and writes before and behind the block what it likes. What is taken out of the block is trimmed, so
only two things can go wrong with it: the block may end too late or too early, and more than the
name may be left out in front.

The block ends at the first fence that is left. A line break before the closing fence keeps the two
apart that could run together, the end of the query and the fence (`not_infix_append_fence`), and no
fence behind it is looked at. In front, the name is the longest run of letters. A line break ends
it, so nothing of a query on lines of its own is lost (`withoutFence_eq_trim`). If the query stands
on the line of the fence, its first word passes for the name (`withoutFence_oneLine_iff`).
-/

namespace CodeAtlas.Reply

open Text (isBlank trim trimList)

/-! ## The place of a fence -/

/-- Two marks of a fence after a text without fences do not make a fence, unless the text ends with
such a mark. -/
theorem not_infix_append_fence {cs : List Char} {c : Char} (hc : c ∉ fence)
    (h : ¬ fence <:+: cs) : ¬ fence <:+: cs ++ [c] ++ fence.dropLast := by
  have hshort : ¬ fence <:+: fence.dropLast := fun hinfix ↦ absurd hinfix.length_le (by decide)
  rw [List.append_assoc, List.singleton_append, infix_append_cons_iff hc]
  exact not_or.mpr ⟨h, hshort⟩

/-- A text without the character that fences are made of can stand before one. -/
theorem not_infix_append_fence_of_notMem {cs : List Char} (h : '\x60' ∉ cs) :
    ¬ fence <:+: cs ++ fence.dropLast := by
  have hnone : ∀ ds, ds <:+: fence → ds ≠ [] → ¬ ds <:+: cs := by
    intro ds hds hne hinfix
    obtain ⟨d, rest, rfl⟩ := List.exists_cons_of_ne_nil hne
    have hd : d = '\x60' := List.eq_of_mem_replicate (n := 3) (hds.subset List.mem_cons_self)
    exact h (hd ▸ hinfix.subset List.mem_cons_self)
  rw [List.infix_append_iff]
  rintro (hcs | hfence | ⟨start, rest, heq, hstart, hrest⟩)
  · exact hnone fence List.infix_rfl (by decide) hcs
  · exact absurd hfence.length_le (by decide)
  · have hne : start ≠ [] := by
      rintro rfl
      have hlength : fence.length ≤ fence.dropLast.length := heq ▸ hrest.length_le
      exact absurd hlength (by decide)
    exact hnone start (heq ▸ List.prefix_append start rest).isInfix hne hstart.isInfix

/-- The first block is what stands up to the next fence. -/
theorem fenced?_append {before rest : List Char} (hbefore : '\x60' ∉ before) :
    fenced? (before ++ (fence ++ rest))
      = (cut? fence ((rest.dropWhile Char.isAlpha).dropWhile isBlank)).map Prod.fst := by
  rw [fenced?, cut?_append (not_infix_append_fence_of_notMem hbefore)]

theorem withoutFence_of_fenced? {text : String} {block : List Char}
    (h : fenced? text.toList = some block) :
    withoutFence text = String.ofList (trimList block) := by
  rw [withoutFence, h, Option.getD_some]

/-- Neither letters nor blanks are left out beyond a fence. -/
private theorem dropWhile_append_fence {p : Char → Bool} (hp : p '\x60' = false)
    (cs rest : List Char) :
    (cs ++ (fence ++ rest)).dropWhile p = cs.dropWhile p ++ (fence ++ rest) :=
  dropWhile_append_cons hp cs _

/-! ## Queries on lines of their own -/

/-- A block with a query on lines of its own. -/
def block (tag query : String) : String :=
  "\x60\x60\x60" ++ tag ++ "\n" ++ query ++ "\n" ++ "\x60\x60\x60"

/-- Wherever the block begins and whatever comes behind it, the block holds the query. -/
theorem withoutFence_block {before tag query after : String} (hbefore : '\x60' ∉ before.toList)
    (htag : ∀ c ∈ tag.toList, c.isAlpha = true) (hquery : ¬ fence <:+: query.toList) :
    withoutFence (before ++ block tag query ++ after) = trim query := by
  have hblank : ∀ c ∈ ['\n'], isBlank c = true := List.forall_mem_singleton.mpr rfl
  have htext : (before ++ block tag query ++ after).toList = before.toList ++ (fence ++
      (tag.toList ++ (['\n'] ++ (query.toList ++ ['\n'] ++ (fence ++ after.toList))))) := by
    simp only [block, String.toList_append, List.append_assoc]
    rfl
  -- The query with the line break behind it, without the blanks in front.
  let found := (query.toList ++ ['\n']).dropWhile isBlank
  have hskip : ((tag.toList ++ (['\n'] ++ (query.toList ++ ['\n'] ++
      (fence ++ after.toList)))).dropWhile Char.isAlpha).dropWhile isBlank
        = found ++ (fence ++ after.toList) := by
    rw [List.singleton_append, dropWhile_append_cons (by decide),
      List.dropWhile_eq_nil_iff.mpr htag, List.nil_append, ← List.singleton_append,
      List.dropWhile_append_of_pos hblank, dropWhile_append_fence (by decide)]
  have hfound : ¬ fence <:+: found ++ fence.dropLast := by
    obtain ⟨gap, hgap⟩ := List.dropWhile_suffix isBlank (l := query.toList ++ ['\n'])
    intro hinfix
    refine not_infix_append_fence (c := '\n') (by decide) hquery (List.IsInfix.trans hinfix ?_)
    rw [← hgap, List.append_assoc]
    exact (List.suffix_append _ _).isInfix
  have hblock : fenced? (before ++ block tag query ++ after).toList = some found := by
    rw [htext, fenced?_append hbefore, hskip, cut?_append hfound]
    rfl
  rw [withoutFence_of_fenced? hblock, Text.trimList_dropWhile, Text.trimList_append_right hblank,
    trim]

/-- A fence that no second one follows opens no block. -/
theorem fenced?_eq_none {cs : List Char}
    (h : ∀ before body after, cs ≠ before ++ (fence ++ (body ++ (fence ++ after)))) :
    fenced? cs = none := by
  rw [fenced?]
  split
  · rfl
  · rename_i before rest hcut
    have htext := eq_append_of_cut? hcut
    have hnone : cut? fence ((rest.dropWhile Char.isAlpha).dropWhile isBlank) = none := by
      rw [cut?_eq_none_iff]
      intro hinfix
      have hsuffix := (List.dropWhile_suffix isBlank).trans
        (List.dropWhile_suffix (l := rest) Char.isAlpha)
      obtain ⟨body, after, hrest⟩ := hinfix.trans hsuffix.isInfix
      rw [List.append_assoc] at hrest
      exact h before body after (hrest ▸ htext)
    rw [hnone, Option.map_none]

/-- **What a fenced block holds is found**, if the query stands on lines of its own: nothing of the
query is lost, nothing before the block or behind it gets in, and other blocks may follow. A text
without a whole block is only trimmed. -/
theorem withoutFence_eq_trim :
    (∀ before tag query after : String, '\x60' ∉ before.toList →
      (∀ c ∈ tag.toList, c.isAlpha = true) → ¬ fence <:+: query.toList →
      withoutFence (before ++ block tag query ++ after) = trim query) ∧
    (∀ text : String,
      (∀ before body after, text.toList ≠ before ++ (fence ++ (body ++ (fence ++ after)))) →
      withoutFence text = trim text) := by
  refine ⟨fun before tag query after ↦ withoutFence_block, fun text h ↦ ?_⟩
  rw [withoutFence, fenced?_eq_none h, Option.getD_none, trim]

/-- A query that begins with letters and ends with two marks of a fence, with a second block behind
it, and a text with one fence only. -/
theorem withoutFence_eq_trim_quotedName :
    '\x60' ∉ "Try this:\n".toList ∧ (∀ c ∈ "cypher".toList, c.isAlpha = true) ∧
      ¬ fence <:+: "  MATCH (n) RETURN n.\x60a b\x60\x60".toList ∧
      withoutFence ("Try this:\n" ++ block "cypher" "  MATCH (n) RETURN n.\x60a b\x60\x60"
        ++ " or " ++ block "" "RETURN 1") = trim "  MATCH (n) RETURN n.\x60a b\x60\x60" ∧
      (∀ before body after, " \x60\x60\x60\x60\x60 RETURN 1".toList
        ≠ before ++ (fence ++ (body ++ (fence ++ after)))) ∧
      withoutFence " \x60\x60\x60\x60\x60 RETURN 1" = trim " \x60\x60\x60\x60\x60 RETURN 1" := by
  have hbefore : '\x60' ∉ "Try this:\n".toList := by decide
  have htag : ∀ c ∈ "cypher".toList, c.isAlpha = true := List.all_eq_true.mp rfl
  have hquery : ¬ fence <:+: "  MATCH (n) RETURN n.\x60a b\x60\x60".toList :=
    cut?_eq_none_iff.mp rfl
  have htext : ∀ before body after, " \x60\x60\x60\x60\x60 RETURN 1".toList
      ≠ before ++ (fence ++ (body ++ (fence ++ after))) := by
    intro before body after heq
    -- There are five marks, and two fences need six.
    have hcount := congrArg (List.count '\x60') heq
    have hfence : fence.count '\x60' = 3 := rfl
    have htotal : " \x60\x60\x60\x60\x60 RETURN 1".toList.count '\x60' = 5 := by decide +kernel
    rw [htotal] at hcount
    simp only [List.count_append, hfence] at hcount
    omega
  obtain ⟨hblock, hplain⟩ := withoutFence_eq_trim
  refine ⟨hbefore, htag, hquery, ?_, htext, hplain _ htext⟩
  rw [String.append_assoc]
  exact hblock _ _ _ _ hbefore htag hquery

/-! ## Queries on the line of the fence -/

variable {query : String}

/-- The letters with which the query begins are taken for the name of the language. -/
theorem withoutFence_oneLine (h : '\x60' ∉ query.toList) :
    withoutFence ("\x60\x60\x60" ++ query ++ "\x60\x60\x60")
      = String.ofList (trimList (query.toList.dropWhile Char.isAlpha)) := by
  let found := (query.toList.dropWhile Char.isAlpha).dropWhile isBlank
  have htext : ("\x60\x60\x60" ++ query ++ "\x60\x60\x60").toList
      = [] ++ (fence ++ (query.toList ++ (fence ++ []))) := by
    simp only [String.toList_append, List.append_assoc]
    rfl
  have hfound : '\x60' ∉ found := fun hmem ↦ h
    (List.dropWhile_subset _ (List.dropWhile_subset _ hmem))
  have hblock : fenced? ("\x60\x60\x60" ++ query ++ "\x60\x60\x60").toList = some found := by
    rw [htext, fenced?_append List.not_mem_nil, dropWhile_append_fence (by decide),
      dropWhile_append_fence (by decide), cut?_append (not_infix_append_fence_of_notMem hfound)]
    rfl
  rw [withoutFence_of_fenced? hblock, Text.trimList_dropWhile]

/-- Letters in front are missed after trimming, since no letter is a blank. -/
private theorem takeWhile_isAlpha_eq_nil {cs : List Char}
    (h : trimList (cs.dropWhile Char.isAlpha) = trimList cs) : cs.takeWhile Char.isAlpha = [] := by
  have hcount : Text.inkCount (cs.dropWhile Char.isAlpha) = Text.inkCount cs := by
    rw [← Text.inkCount_trimList, h, Text.inkCount_trimList]
  have hsplit : Text.inkCount cs = Text.inkCount (cs.takeWhile Char.isAlpha)
      + Text.inkCount (cs.dropWhile Char.isAlpha) := by
    rw [← Text.inkCount_append, List.takeWhile_append_dropWhile]
  have hzero : Text.inkCount (cs.takeWhile Char.isAlpha) = 0 := by omega
  rw [List.eq_nil_iff_forall_not_mem]
  intro c hc
  have hblank := List.countP_eq_zero.mp hzero c hc
  rw [Text.isBlank_of_isAlpha (List.mem_takeWhile_imp hc)] at hblank
  exact hblank rfl

/-- **A query on the line of the fence is found exactly if it does not begin with a letter.** If it
does, its first letters are lost. -/
theorem withoutFence_oneLine_iff (query : String) (h : '\x60' ∉ query.toList) :
    withoutFence ("\x60\x60\x60" ++ query ++ "\x60\x60\x60") = trim query ↔
      ∀ c ∈ query.toList.head?, c.isAlpha = false := by
  rw [withoutFence_oneLine h, trim, String.ofList_inj]
  constructor
  · intro heq c hc
    have hnil := takeWhile_isAlpha_eq_nil heq
    obtain ⟨rest, hrest⟩ := List.head?_eq_some_iff.mp hc
    rw [hrest, List.takeWhile_cons] at hnil
    exact Bool.eq_false_iff.mpr fun hc ↦ absurd (if_pos hc ▸ hnil) (List.cons_ne_nil _ _)
  · intro hhead
    cases hquery : query.toList with
    | nil => rfl
    | cons c rest =>
      have hc : c.isAlpha = false := hhead c (by rw [hquery]; rfl)
      rw [List.dropWhile_cons_of_neg (Bool.not_eq_true _ ▸ hc)]

theorem withoutFence_oneLine_iff_match :
    '\x60' ∉ "MATCH (n) RETURN n".toList ∧
      (withoutFence ("\x60\x60\x60" ++ "MATCH (n) RETURN n" ++ "\x60\x60\x60")
          = trim "MATCH (n) RETURN n" ↔
        ∀ c ∈ "MATCH (n) RETURN n".toList.head?, c.isAlpha = false) := by
  have hquery : '\x60' ∉ "MATCH (n) RETURN n".toList := by decide
  exact ⟨hquery, withoutFence_oneLine_iff _ hquery⟩

/-- Not every query on the line of the fence is found: the first word of a query is lost. -/
theorem not_forall_withoutFence_oneLine : ¬ ∀ query : String, '\x60' ∉ query.toList →
    withoutFence ("\x60\x60\x60" ++ query ++ "\x60\x60\x60") = trim query := by
  intro h
  have hfound : withoutFence ("\x60\x60\x60" ++ "MATCH (n) RETURN n" ++ "\x60\x60\x60")
      = "(n) RETURN n" := by
    decide +kernel
  have hwhole := h "MATCH (n) RETURN n" (by decide)
  rw [hfound] at hwhole
  exact absurd hwhole (by decide +kernel)

end CodeAtlas.Reply
