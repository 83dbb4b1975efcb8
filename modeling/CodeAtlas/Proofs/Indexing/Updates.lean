import CodeAtlas.Proofs.Indexing.CodeEdges

/-!
# Bringing the edges of a source up to date

The imports of a file and the calls of a function are brought up to date in two steps. First the
wanted edges are merged, then those that are there and not wanted are deleted. Whichever of these
writes fail, an edge can be missing, or left over, only because a write for it failed.

## Why no success is undone

The wanted edges are those of the text, not those whose merge succeeded. So no wanted edge is ever
deleted, and a merge of it that succeeds is final. In the same way no unwanted edge is ever merged,
and what is left of them in the end was there when the edges were listed; a deletion was attempted
for each of these.
-/

namespace CodeAtlas

/-- The edge from the source to what has the name in the file at the path. -/
def EdgeSource.edge (s : EdgeSource) (t : String × String) : CodeEdge := ⟨s, t.1, t.2⟩

/-- The writes bring the edges of the source up to date: the wanted ones are merged, and then those
that are there and not wanted are deleted. -/
structure IsUpdate (digest : Digest) (s : EdgeSource) (wanted : List (String × String)) (g : Graph)
    (merges deletions : List Write) : Prop where
  merges_of : ∀ w ∈ merges, ∃ t ∈ wanted, w.request = (s.edge t).mergeRequest
  exists_merge : ∀ t ∈ wanted, ∃ b, ⟨(s.edge t).mergeRequest, b⟩ ∈ merges
  deletions_of : ∀ w ∈ deletions, ∃ t, t ∉ wanted ∧ w.request = (s.edge t).deleteRequest
  exists_deletion : ∀ t, t ∉ wanted →
    (s.edge t).relationship digest ∈ (g.afterWrites digest merges).relationships →
      ∃ b, ⟨(s.edge t).deleteRequest, b⟩ ∈ deletions

/-- The edges of the source are up to date, but for what failed:

* a wanted edge that was there is still there;
* a wanted edge that is missing failed to be merged, each time that this was attempted;
* an edge that is there and not wanted was there before, and failed to be deleted. -/
structure KeptUp (s : EdgeSource) (wanted : List (String × String)) (g : Graph) (ws : List Write)
    (h : Graph) : Prop where
  survives : ∀ t ∈ wanted, g.Shows (s.edge t) → h.Shows (s.edge t)
  missing : ∀ t ∈ wanted, ¬ h.Shows (s.edge t) →
    ⟨(s.edge t).mergeRequest, false⟩ ∈ ws ∧ ⟨(s.edge t).mergeRequest, true⟩ ∉ ws
  remaining : ∀ r ∈ h.relationships, h.leaves s r → ∃ t, h.isEdge (s.edge t) r ∧
    (t ∈ wanted ∨ g.Shows (s.edge t) ∧
      ⟨(s.edge t).deleteRequest, false⟩ ∈ ws ∧ ⟨(s.edge t).deleteRequest, true⟩ ∉ ws)

theorem EdgeSource.edge_injective (s : EdgeSource) : Function.Injective s.edge := by
  rintro ⟨name, path⟩ ⟨name', path'⟩ h
  rw [edge, edge, CodeEdge.mk.injEq] at h
  exact Prod.ext h.2.1 h.2.2

namespace IsUpdate

variable {digest : Digest} {s : EdgeSource} {wanted : List (String × String)} {g : Graph}
  {merges deletions pre post : List Write} {t : String × String} {b : Bool}

theorem staysAt (h : IsUpdate digest s wanted g merges deletions) :
    StaysAt [s] (merges ++ deletions) := by
  refine StaysAt.append (fun w hw ↦ ?_) fun w hw ↦ ?_
  · obtain ⟨t, -, hrequest⟩ := h.merges_of w hw
    rw [hrequest]
    exact ⟨.merge _, fun e he ↦ CodeEdge.concerns_mergeRequest.mp he ▸ List.mem_cons_self⟩
  · obtain ⟨t, -, hrequest⟩ := h.deletions_of w hw
    rw [hrequest]
    exact ⟨.delete _, fun e he ↦ CodeEdge.concerns_deleteRequest.mp he ▸ List.mem_cons_self⟩

/-- What is merged is wanted. -/
theorem mem_wanted (h : IsUpdate digest s wanted g merges deletions)
    (hw : ⟨(s.edge t).mergeRequest, b⟩ ∈ merges ++ deletions) : t ∈ wanted := by
  rcases List.mem_append.mp hw with hw | hw
  · obtain ⟨t', ht', hrequest⟩ := h.merges_of _ hw
    exact s.edge_injective (CodeEdge.mergeRequest_inj.mp hrequest) ▸ ht'
  · obtain ⟨t', -, hrequest⟩ := h.deletions_of _ hw
    exact absurd hrequest CodeEdge.mergeRequest_ne_deleteRequest

/-- What is deleted is not wanted. -/
theorem notMem_wanted (h : IsUpdate digest s wanted g merges deletions)
    (hw : ⟨(s.edge t).deleteRequest, b⟩ ∈ merges ++ deletions) : t ∉ wanted := by
  rcases List.mem_append.mp hw with hw | hw
  · obtain ⟨t', -, hrequest⟩ := h.merges_of _ hw
    exact absurd hrequest.symm CodeEdge.mergeRequest_ne_deleteRequest
  · obtain ⟨t', ht', hrequest⟩ := h.deletions_of _ hw
    exact s.edge_injective (CodeEdge.deleteRequest_inj.mp hrequest) ▸ ht'

/-- Among the writes, the merges are those of the wanted edges. -/
theorem mergedCount_eq (h : IsUpdate digest s wanted g merges deletions) :
    mergedCount s.type (merges ++ deletions) = merges.countP (·.succeeded) := by
  have hdeletions : mergedCount s.type deletions = 0 := by
    rw [mergedCount, List.countP_eq_zero]
    intro w hw
    obtain ⟨t, -, hrequest⟩ := h.deletions_of w hw
    rw [hrequest, CodeEdge.merges_deleteRequest, Bool.and_false]
    exact Bool.false_ne_true
  rw [mergedCount_append, hdeletions, Nat.add_zero]
  refine List.countP_congr fun w hw ↦ ?_
  obtain ⟨t, -, hrequest⟩ := h.merges_of w hw
  have hmerges : (s.edge t).mergeRequest.merges s.type = true :=
    (CodeEdge.merges_mergeRequest _ _).trans (beq_self_eq_true _)
  rw [hrequest, hmerges, Bool.and_true]

/-- **An update leaves what failed**, also among writes that are not about the source. -/
theorem keptUp (hd : Function.Injective digest) (hg : g.Indexed digest)
    (h : IsUpdate digest s wanted (g.afterWrites digest pre) merges deletions)
    {sources : List EdgeSource} (hs : s ∉ sources) (hpre : StaysAt sources pre)
    (hpost : StaysAt sources post) :
    KeptUp s wanted g (pre ++ (merges ++ deletions) ++ post)
      (g.afterWrites digest (pre ++ (merges ++ deletions) ++ post)) := by
  have hcode : ∀ w ∈ pre ++ (merges ++ deletions) ++ post, w.request.IsCodeWrite := by
    rw [List.forall_mem_append, List.forall_mem_append]
    exact ⟨⟨hpre.isCodeWrite, h.staysAt.isCodeWrite⟩, hpost.isCodeWrite⟩
  have hh := Graph.indexed_afterWrites hd hg hcode
  -- The writes before and after are about other edges, so those about this one are of the update.
  have hmerge : ∀ {t b}, ⟨(s.edge t).mergeRequest, b⟩ ∈ pre ++ (merges ++ deletions) ++ post →
      t ∈ wanted :=
    fun hw ↦ h.mem_wanted (hpre.mem_of_concerns hpost hs (Or.inl rfl) hw)
  have hdelete : ∀ {t b}, ⟨(s.edge t).deleteRequest, b⟩ ∈ pre ++ (merges ++ deletions) ++ post →
      t ∉ wanted :=
    fun hw ↦ h.notMem_wanted (hpre.mem_of_concerns hpost hs (Or.inr rfl) hw)
  constructor
  case survives =>
    intro t ht hshows
    rw [hg.shows_iff hd] at hshows
    rw [hh.shows_iff hd]
    exact Graph.mem_afterWrites_of_mem hd hg hcode (fun hw ↦ hdelete hw ht) hshows
  case missing =>
    intro t ht hmissing
    rw [hh.shows_iff hd] at hmissing
    have hfailed : ⟨(s.edge t).mergeRequest, true⟩ ∉ pre ++ (merges ++ deletions) ++ post := fun hw ↦
      hmissing (Graph.mem_afterWrites_of_merged hd hg hcode (fun hw ↦ hdelete hw ht) hw)
    obtain ⟨b, hw⟩ := h.exists_merge t ht
    have hattempt : ⟨(s.edge t).mergeRequest, b⟩ ∈ pre ++ (merges ++ deletions) ++ post :=
      List.mem_append_left _ (List.mem_append_right _ (List.mem_append_left _ hw))
    cases b with
    | true => exact absurd hattempt hfailed
    | false => exact ⟨hattempt, hfailed⟩
  case remaining =>
    intro r hr hleaves
    rw [hh.leaves_iff hd hr] at hleaves
    obtain ⟨name, path, rfl⟩ := hh.exists_eq_relationship hd hr hleaves
    refine ⟨(name, path), (hh.isEdge_iff hd hr).mpr rfl, ?_⟩
    by_cases hwanted : (name, path) ∈ wanted
    · exact Or.inl hwanted
    · have hunmerged : ⟨(s.edge (name, path)).mergeRequest, true⟩
          ∉ pre ++ (merges ++ deletions) ++ post := fun hw ↦ hwanted (hmerge hw)
      obtain ⟨hbefore, hfailed⟩ := Graph.mem_of_mem_afterWrites hd hg hcode hunmerged hr
      -- It was there when the edges were listed, so its deletion was attempted.
      have hsplit : pre ++ (merges ++ deletions) ++ post = (pre ++ merges) ++ (deletions ++ post) := by
        simp only [List.append_assoc]
      have hlisted := Graph.mem_afterWrites_of_append hd hg hcode hsplit hunmerged hr
      rw [Graph.afterWrites_append] at hlisted
      obtain ⟨b, hw⟩ := h.exists_deletion _ hwanted hlisted
      have hattempt : ⟨(s.edge (name, path)).deleteRequest, b⟩
          ∈ pre ++ (merges ++ deletions) ++ post :=
        List.mem_append_left _ (List.mem_append_right _ (List.mem_append_right _ hw))
      cases b with
      | true => exact absurd hattempt hfailed
      | false => exact Or.inr ⟨(hg.shows_iff hd).mpr hbefore, hattempt, hfailed⟩

theorem keptUp_alone (hd : Function.Injective digest) (hg : g.Indexed digest)
    (h : IsUpdate digest s wanted g merges deletions) :
    KeptUp s wanted g (merges ++ deletions) (g.afterWrites digest (merges ++ deletions)) := by
  have hkept : KeptUp s wanted g ([] ++ (merges ++ deletions) ++ [])
      (g.afterWrites digest ([] ++ (merges ++ deletions) ++ [])) :=
    h.keptUp hd hg List.not_mem_nil (.nil []) (.nil [])
  rwa [List.nil_append, List.append_nil] at hkept

end IsUpdate

end CodeAtlas
