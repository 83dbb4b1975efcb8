import CodeAtlas.Proofs.Graph.Reached
import CodeAtlas.Proofs.Program.Interleaving

/-!
# Sharing a graph

Programs that share a graph get in each other's way only if one of them sees what another one
changes. A program that is *at home* at a path asks about relationships that leave the file at the
path or a function in it, and it writes only such relationships. It also writes nodes anywhere, but
nodes stay where they are, and whoever writes a node for a file or a function writes the same one.

So a program at home at a path sees what it would see if it were alone: among the relationships that
leave its own nodes there are the same ones in the same order, and they lead to the same nodes. This
is carried through a run by keeping, beside the shared graph, one graph for every program, namely
the one that would be there if the others had not run. `Shared` says how these graphs hang together,
and in the end the shared graph can be read off them.
-/

namespace CodeAtlas

namespace Graph

/-! ## What leaves a node -/

/-- The relationships that leave a node, in order. -/
def leaving (g : Graph) (id : String) : List Relationship :=
  g.relationships.filter fun r ↦ r.sourceId == id

variable {digest : Digest} {g h : Graph} {id : String}

theorem mem_leaving {r : Relationship} :
    r ∈ g.leaving id ↔ r ∈ g.relationships ∧ r.sourceId = id := by
  rw [leaving, List.mem_filter, beq_iff_eq]

theorem leaving_congr (hrelationships : g.relationships = h.relationships) (id : String) :
    g.leaving id = h.leaving id := by
  rw [leaving, leaving, hrelationships]

theorem outgoing_eq_filter_leaving (type id : String) (attrs : Props) :
    g.outgoing type id attrs
      = (g.leaving id).filter fun r ↦ r.type == type && includes r.properties attrs := by
  rw [outgoing, leaving, List.filter_filter]
  refine List.filter_congr fun r _ ↦ ?_
  rw [Bool.and_right_comm]

theorem leaving_without (doomed : Relationship → Bool) (id : String) :
    (g.without doomed).leaving id = (g.leaving id).filter fun r ↦ !doomed r := by
  rw [leaving, leaving, without, List.filter_filter, List.filter_filter]
  refine List.filter_congr fun r _ ↦ ?_
  rw [Bool.and_comm]

theorem countP_isBetween (type sourceId targetId : String) (attrs : Props) :
    g.relationships.countP (isBetween type sourceId targetId attrs)
      = (g.leaving sourceId).countP (isBetween type sourceId targetId attrs) := by
  rw [leaving, List.countP_filter]
  refine List.countP_congr fun r _ ↦ ?_
  rw [Bool.and_eq_true, beq_iff_eq]
  exact ⟨fun hr ↦ ⟨hr, (isBetween_iff.mp hr).2.1⟩, And.left⟩

theorem leaving_addRelationship_of_ne {r : Relationship} (hne : r.sourceId ≠ id) :
    (g.addRelationship r).leaving id = g.leaving id := by
  rw [addRelationship]
  split
  · rfl
  · rw [leaving, List.filter_append, List.filter_singleton, beq_eq_false_iff_ne.mpr hne, cond_false,
      List.append_nil, leaving]

/-- What a new relationship does to those that leave its source can be seen from there. -/
theorem leaving_addRelationship_congr (hd : Function.Injective digest) (hg : g.Textual digest)
    (hh : h.Textual digest) {r : Relationship}
    (hid : r.id = relationshipId digest r.type r.sourceId r.targetId r.properties)
    (hleaving : g.leaving r.sourceId = h.leaving r.sourceId) :
    (g.addRelationship r).leaving r.sourceId = (h.addRelationship r).leaving r.sourceId := by
  -- A relationship with this id has this source, so looking there is looking everywhere.
  have hsource : ∀ {k : Graph}, k.Textual digest → ∀ q ∈ k.relationships, q.id = r.id →
      q ∈ k.leaving r.sourceId := by
    intro k hk q hq hqr
    rw [hk.relationship_id q hq, hid] at hqr
    exact mem_leaving.mpr ⟨hq, (relationshipId_inj hd hqr).2.1⟩
  by_cases hmem : ∃ q ∈ g.leaving r.sourceId, q.id = r.id
  · obtain ⟨q, hq, hqr⟩ := hmem
    rw [addRelationship_of_mem (mem_leaving.mp hq).1 hqr,
      addRelationship_of_mem (mem_leaving.mp (hleaving ▸ hq)).1 hqr, hleaving]
  · rw [addRelationship_of_forall fun q hq hqr ↦ hmem ⟨q, hsource hg q hq hqr, hqr⟩,
      addRelationship_of_forall fun q hq hqr ↦ hmem ⟨q, hleaving ▸ hsource hh q hq hqr, hqr⟩]
    rw [leaving, leaving, List.filter_append, List.filter_append]
    exact congrArg (· ++ _) hleaving

/-! ## Keys that belong to a file -/

/-- The key of the file at a path, or of a function in it. -/
def IsKeyOf (path label : String) (key : Props) : Prop :=
  (label = fileLabel ∧ key = fileKey (.text path)) ∨
    ∃ name, label = functionLabel ∧ key = functionKey (.text name) (.text path)

/-- The id of the file at a path, or of a function in it. -/
def IsIdOf (digest : Digest) (path id : String) : Prop :=
  ∃ label key, IsKeyOf path label key ∧ id = nodeId digest label key

theorem isKeyOf_file (path : String) : IsKeyOf path fileLabel (fileKey (.text path)) :=
  Or.inl ⟨rfl, rfl⟩

theorem isKeyOf_function (name path : String) :
    IsKeyOf path functionLabel (functionKey (.text name) (.text path)) :=
  Or.inr ⟨name, rfl, rfl⟩

theorem IsKeyOf.isText {path label : String} {key : Props} (h : IsKeyOf path label key) :
    ∀ e ∈ key, e.2.IsText := by
  rcases h with ⟨-, rfl⟩ | ⟨name, -, rfl⟩
  · exact isText_fileKey path
  · exact isText_functionKey name path

theorem IsKeyOf.isScalar {path label : String} {key : Props} (h : IsKeyOf path label key) :
    ∀ e ∈ key, e.2.IsScalar :=
  fun e he ↦ (h.isText e he).isScalar

/-- Such a key is known from its id. -/
theorem IsKeyOf.inj (hd : Function.Injective digest) {path path' label label' : String}
    {key key' : Props} (h : IsKeyOf path label key) (h' : IsKeyOf path' label' key')
    (hid : nodeId digest label key = nodeId digest label' key') :
    path = path' ∧ label = label' ∧ key = key' := by
  rcases h with ⟨rfl, rfl⟩ | ⟨name, rfl, rfl⟩ <;> rcases h' with ⟨rfl, rfl⟩ | ⟨name', rfl, rfl⟩
  · obtain rfl := (fileId_inj hd).mp hid
    exact ⟨rfl, rfl, rfl⟩
  · exact absurd hid (fileId_ne_functionId hd)
  · exact absurd hid.symm (fileId_ne_functionId hd)
  · obtain ⟨rfl, rfl⟩ := (functionId_inj hd).mp hid
    exact ⟨rfl, rfl, rfl⟩

theorem IsIdOf.inj (hd : Function.Injective digest) {path path' : String}
    (h : IsIdOf digest path id) (h' : IsIdOf digest path' id) : path = path' := by
  obtain ⟨label, key, hkey, rfl⟩ := h
  obtain ⟨label', key', hkey', hid⟩ := h'
  exact (hkey.inj hd hkey' hid).1

/-! ## Graphs with more nodes -/

/-- The nodes of the first graph are still there, and those that were added are files and
functions. -/
structure Grown (digest : Digest) (g₀ g : Graph) : Prop where
  textual : g.Textual digest
  node?_of_some : ∀ {id n}, g₀.node? id = some n → g.node? id = some n
  new_node : ∀ {id n}, g.node? id = some n → g₀.node? id = some n ∨
    ∃ path label key, IsKeyOf path label key ∧ n = keyNode digest label key

variable {g₀ : Graph}

theorem grown_refl (hg : g.Textual digest) : Grown digest g g := ⟨hg, id, Or.inl⟩

theorem Grown.mergeNode (hg : Grown digest g₀ g) {path label : String} {key : Props}
    (hkey : IsKeyOf path label key) : Grown digest g₀ (g.mergeNode digest label key) where
  textual := hg.textual.mergeNode hkey.isText
  node?_of_some hn := node?_mergeNode_of_some (hg.node?_of_some hn)
  new_node {id n} hn := by
    rw [Graph.mergeNode, node?_addNode, Option.or_eq_some_iff] at hn
    rcases hn with hn | ⟨-, hn⟩
    · exact hg.new_node hn
    · split at hn
      · exact Or.inr ⟨path, label, key, hkey, (Option.some.inj hn).symm⟩
      · exact absurd hn (by simp)

theorem Grown.of_nodes_eq (hg : Grown digest g₀ g) (hh : h.Textual digest)
    (hnodes : h.nodes = g.nodes) : Grown digest g₀ h where
  textual := hh
  node?_of_some hn := by
    rw [node?_congr hnodes]
    exact hg.node?_of_some hn
  new_node hn := by
    rw [node?_congr hnodes] at hn
    exact hg.new_node hn

/-- However the graph has grown, there is the same node at an id, if there is one. -/
theorem Grown.node?_unique (hd : Function.Injective digest) (hg : Grown digest g₀ g)
    (hh : Grown digest g₀ h) {n m : Node} (hn : g.node? id = some n) (hm : h.node? id = some m) :
    n = m := by
  rcases hg.new_node hn with hn₀ | ⟨path, label, key, hkey, rfl⟩
  · exact Option.some.inj ((hh.node?_of_some hn₀).symm.trans hm)
  · rcases hh.new_node hm with hm₀ | ⟨path', label', key', hkey', rfl⟩
    · exact Option.some.inj (hn.symm.trans (hg.node?_of_some hm₀))
    · -- Both nodes are new, and whoever writes a node with this id writes the same one.
      have hid : nodeId digest label key = nodeId digest label' key' :=
        (mem_of_node? hn).2.trans (mem_of_node? hm).2.symm
      obtain ⟨-, rfl, rfl⟩ := hkey.inj hd hkey' hid
      rfl

/-- What leaves a node looks the same from there, whatever else has been added. -/
theorem Grown.edgesFrom_eq (hd : Function.Injective digest) (hg : Grown digest g₀ g)
    (hh : Grown digest g₀ h) (hleaving : g.leaving id = h.leaving id) (type : String)
    (attrs : Props) : g.edgesFrom type id attrs = h.edgesFrom type id attrs := by
  have hout : g.outgoing type id attrs = h.outgoing type id attrs := by
    rw [outgoing_eq_filter_leaving, outgoing_eq_filter_leaving, hleaving]
  rw [edgesFrom, edgesFrom, hout]
  refine List.map_congr_left fun r hr ↦ ?_
  obtain ⟨n, hn⟩ := hg.textual.target_mem r (mem_outgoing.mp (hout ▸ hr)).1
  obtain ⟨m, hm⟩ := hh.textual.target_mem r (mem_outgoing.mp hr).1
  rw [propertiesAt_of_node? hn, propertiesAt_of_node? hm, hg.node?_unique hd hh hn hm]

theorem isSome_node?_mergeNode {label : String} {key : Props} :
    ((g.mergeNode digest label key).node? id).isSome ↔
      (g.node? id).isSome ∨ id = nodeId digest label key := by
  rw [mergeNode, node?_addNode, Option.isSome_or, Bool.or_eq_true]
  refine or_congr_right ?_
  by_cases hid : nodeId digest label key = id
  · exact iff_of_true (by rw [keyNode, if_pos hid]; rfl) hid.symm
  · exact iff_of_false (by rw [keyNode, if_neg hid]; exact Bool.false_ne_true) (Ne.symm hid)

end Graph

/-! ## Requests of a program at home at a path -/

namespace Request

open CodeAtlas.Graph (IsKeyOf)

/-- The request is about relationships that leave the file at a path or a function in it, or it
concerns no relationship at all. -/
def IsAtHome (path : String) : Request → Prop
  | mergeNode label key => ∃ q, IsKeyOf q label key
  | mergeRelationship _ fromLabel fromKey toLabel toKey attrs =>
    IsKeyOf path fromLabel fromKey ∧ (∃ q, IsKeyOf q toLabel toKey) ∧
      ∀ e ∈ attrs.getD [], e.2.IsText
  | findRelationships _ fromLabel fromKey _ => IsKeyOf path fromLabel fromKey
  | deleteRelationship _ fromLabel fromKey _ toKey _ =>
    IsKeyOf path fromLabel fromKey ∧ ∀ e ∈ toKey, e.2.IsScalar
  | expandCalls _ | graphStats => False
  | _ => True

/-- At home, only texts are added. -/
theorem IsAtHome.isTextual {path : String} {r : Request} (h : r.IsAtHome path) : r.IsTextual := by
  cases r with
  | mergeNode label key =>
    obtain ⟨q, hkey⟩ := h
    exact hkey.isText
  | mergeRelationship type fromLabel fromKey toLabel toKey attrs =>
    obtain ⟨hfrom, ⟨q, hto⟩, hattrs⟩ := h
    exact ⟨hfrom.isText, hto.isText, hattrs⟩
  | _ => trivial

/-- What is found has properties that are texts. -/
def IsTextualReply : (r : Request) → Except Fault r.Reply → Prop
  | findRelationships .., x =>
    ∀ edges : List Edge, x = .ok edges → ∀ e ∈ edges, ∀ y ∈ e.target, y.2.IsText
  | _, _ => True

/-- The ids of the nodes that are there afterwards at the latest. -/
def addedIds (digest : Digest) : Request → List String
  | mergeNode label key => [Graph.nodeId digest label key]
  | mergeRelationship _ fromLabel fromKey toLabel toKey _ =>
    [Graph.nodeId digest fromLabel fromKey, Graph.nodeId digest toLabel toKey]
  | _ => []

end Request

namespace Graph

/-- **What a request at home does**: it leaves the graph as it is, or adds nodes, or changes what
leaves one of the nodes that belong to the path. -/
inductive Effect (digest : Digest) (path : String) (g : Graph) :
    (r : Request) → Except Fault r.Reply → Graph → Prop
  | node {q label key} : IsKeyOf q label key → Effect digest path g (.mergeNode label key)
      (.ok (nodeId digest label key)) (g.mergeNode digest label key)
  | merge {type fromLabel fromKey q toLabel toKey attrs} : IsKeyOf path fromLabel fromKey →
      IsKeyOf q toLabel toKey → (∀ e ∈ attrs.getD [], e.2.IsText) →
      Effect digest path g (.mergeRelationship type fromLabel fromKey toLabel toKey attrs)
        (.ok (keyRelationship digest type fromLabel fromKey toLabel toKey (attrs.getD [])).id)
        (g.mergeRelationship digest type fromLabel fromKey toLabel toKey (attrs.getD []))
  | find {type fromLabel fromKey attrs} : IsKeyOf path fromLabel fromKey →
      Effect digest path g (.findRelationships type fromLabel fromKey attrs)
        (.ok (g.edgesFrom type (nodeId digest fromLabel fromKey) (attrs.getD []))) g
  | delete {type fromLabel fromKey toLabel toKey attrs} : IsKeyOf path fromLabel fromKey →
      (∀ e ∈ toKey, e.2.IsScalar) →
      Effect digest path g (.deleteRelationship type fromLabel fromKey toLabel toKey attrs)
        (.ok (g.relationships.countP (isBetween type (nodeId digest fromLabel fromKey)
          (nodeId digest toLabel toKey) (attrs.getD []))))
        (g.without (isBetween type (nodeId digest fromLabel fromKey)
          (nodeId digest toLabel toKey) (attrs.getD [])))
  | aside {r : Request} {x : Except Fault r.Reply} : (∀ k : Graph, Answers digest r k x k) →
      r.addedIds digest = [] → r.IsTextualReply x → Effect digest path g r x g

variable {digest : Digest} {g₀ g h : Graph} {path : String} {r : Request}
  {x : Except Fault r.Reply}

theorem effect_of_answers (hg : g.Textual digest) (hr : r.IsAtHome path)
    (hx : Answers digest r g x h) : Effect digest path g r x h := by
  cases r with
  | mergeNode label key =>
    obtain ⟨q, hkey⟩ := hr
    rw [Answers, answer?, if_pos (isWritable_map_of_scalar hkey.isScalar)] at hx
    obtain ⟨rfl, rfl⟩ := hx
    exact Effect.node hkey
  | mergeRelationship type fromLabel fromKey toLabel toKey attrs =>
    obtain ⟨hfrom, ⟨q, hto⟩, hattrs⟩ := hr
    rw [Answers, answer?_mergeRelationship digest g type fromLabel toLabel attrs hfrom.isScalar
      hto.isScalar fun e he ↦ (hattrs e he).isScalar] at hx
    obtain ⟨rfl, rfl⟩ := hx
    exact Effect.merge hfrom hto hattrs
  | findRelationships type fromLabel fromKey attrs =>
    rw [Answers, answer?_findRelationships hg type fromLabel attrs (IsKeyOf.isScalar hr)] at hx
    obtain ⟨rfl, rfl⟩ := hx
    exact Effect.find hr
  | deleteRelationship type fromLabel fromKey toLabel toKey attrs =>
    obtain ⟨hfrom, hto⟩ := hr
    rw [Answers, answer?, isWritable_map_of_scalar hfrom.isScalar, isWritable_map_of_scalar hto] at hx
    obtain ⟨rfl, rfl⟩ := hx
    exact Effect.delete hfrom hto
  | expandCalls id => exact hr.elim
  | graphStats => exact hr.elim
  | _ =>
    obtain ⟨hx, rfl⟩ := hx
    exact Effect.aside (fun _ ↦ ⟨hx, rfl⟩) rfl trivial

theorem Effect.answers (hg : g.Textual digest) (heffect : Effect digest path g r x h) :
    Answers digest r g x h := by
  cases heffect with
  | node hkey =>
    rw [Answers, answer?, if_pos (isWritable_map_of_scalar hkey.isScalar)]
    exact ⟨rfl, rfl⟩
  | merge hfrom hto hattrs =>
    rw [Answers, answer?_mergeRelationship digest g _ _ _ _ hfrom.isScalar hto.isScalar
      fun e he ↦ (hattrs e he).isScalar]
    exact ⟨rfl, rfl⟩
  | find hfrom =>
    rw [Answers, answer?_findRelationships hg _ _ _ hfrom.isScalar]
    exact ⟨rfl, rfl⟩
  | delete hfrom hto =>
    rw [Answers, answer?, isWritable_map_of_scalar hfrom.isScalar, isWritable_map_of_scalar hto]
    exact ⟨rfl, rfl⟩
  | aside hany => exact hany g

theorem Effect.grown (hg : Grown digest g₀ g) (heffect : Effect digest path g r x h) :
    Grown digest g₀ h := by
  cases heffect with
  | node hkey => exact hg.mergeNode hkey
  | merge hfrom hto hattrs =>
    exact ((hg.mergeNode hfrom).mergeNode hto).of_nodes_eq
      (hg.textual.mergeRelationship hfrom.isText hto.isText hattrs) (nodes_addRelationship _ _)
  | find | aside => exact hg
  | delete => exact hg.of_nodes_eq (hg.textual.without _) rfl

theorem Effect.isTextualReply (hg : g.Textual digest) (heffect : Effect digest path g r x h) :
    r.IsTextualReply x := by
  cases heffect with
  | find hfrom =>
    rintro edges heq e he
    obtain rfl := Except.ok.inj heq
    obtain ⟨q, -, rfl⟩ := mem_edgesFrom.mp he
    exact Textual.isText_propertiesAt hg _
  | aside _ _ hreply => exact hreply
  | node | merge | delete => trivial

theorem Effect.isSome_node? (heffect : Effect digest path g r x h) (id : String) :
    (h.node? id).isSome ↔ (g.node? id).isSome ∨ id ∈ r.addedIds digest := by
  cases heffect with
  | node =>
    rw [isSome_node?_mergeNode, Request.addedIds, List.mem_singleton]
  | merge =>
    rw [mergeRelationship, node?_congr (nodes_addRelationship _ _), isSome_node?_mergeNode,
      isSome_node?_mergeNode, Request.addedIds, List.mem_pair, or_assoc]
  | find | delete => exact (or_iff_left List.not_mem_nil).symm
  | aside _ hadded =>
    rw [hadded]
    exact (or_iff_left List.not_mem_nil).symm

/-- What leaves the nodes of other files stays as it is. -/
theorem Effect.leaving_other (heffect : Effect digest path g r x h) {id : String}
    (hid : ¬ IsIdOf digest path id) : h.leaving id = g.leaving id := by
  cases heffect with
  | node => exact leaving_congr (relationships_mergeNode _ _ _) id
  | merge hfrom =>
    rw [mergeRelationship, leaving_addRelationship_of_ne]
    · exact leaving_congr ((relationships_mergeNode _ _ _).trans (relationships_mergeNode _ _ _)) id
    · rintro rfl
      exact hid ⟨_, _, hfrom, rfl⟩
  | find | aside => rfl
  | delete hfrom =>
    rw [leaving_without, List.filter_eq_self]
    intro q hq
    rw [Bool.not_eq_true', ← Bool.not_eq_true, isBetween_iff]
    rintro ⟨-, hsource, -⟩
    exact hid ⟨_, _, hfrom, (mem_leaving.mp hq).2.symm.trans hsource⟩

/-- **At home it does not matter what else is in the graph.** -/
theorem Effect.exists_alone (hd : Function.Injective digest) {g' : Graph}
    (hx : Effect digest path g r x g') (hg : Grown digest g₀ g) (hh : Grown digest g₀ h)
    (hleaving : ∀ id, IsIdOf digest path id → g.leaving id = h.leaving id) :
    ∃ h', Effect digest path h r x h' ∧
      ∀ id, IsIdOf digest path id → g'.leaving id = h'.leaving id := by
  cases hx with
  | node hkey =>
    refine ⟨_, Effect.node hkey, fun id hid ↦ ?_⟩
    rw [leaving_congr (relationships_mergeNode _ _ _), leaving_congr (relationships_mergeNode _ _ _),
      hleaving id hid]
  | @merge type fromLabel fromKey q toLabel toKey attrs hfrom hto hattrs =>
    refine ⟨_, Effect.merge hfrom hto hattrs, fun id hid ↦ ?_⟩
    have hnodes : ∀ id, IsIdOf digest path id →
        ((g.mergeNode digest fromLabel fromKey).mergeNode digest toLabel toKey).leaving id
          = ((h.mergeNode digest fromLabel fromKey).mergeNode digest toLabel toKey).leaving id := by
      intro id hid
      rw [leaving_congr ((relationships_mergeNode _ _ _).trans (relationships_mergeNode _ _ _)),
        leaving_congr ((relationships_mergeNode _ _ _).trans (relationships_mergeNode _ _ _)),
        hleaving id hid]
    rw [mergeRelationship, mergeRelationship]
    -- Of the nodes at home, only the source gets a new relationship.
    by_cases hsource : nodeId digest fromLabel fromKey = id
    · subst hsource
      exact leaving_addRelationship_congr hd ((hg.mergeNode hfrom).mergeNode hto).textual
        ((hh.mergeNode hfrom).mergeNode hto).textual rfl (hnodes _ hid)
    · rw [leaving_addRelationship_of_ne hsource, leaving_addRelationship_of_ne hsource, hnodes id hid]
  | find hfrom =>
    have hsame := hleaving _ ⟨_, _, hfrom, rfl⟩
    rw [hg.edgesFrom_eq hd hh hsame]
    exact ⟨h, Effect.find hfrom, hleaving⟩
  | delete hfrom hto =>
    have hsame := hleaving _ ⟨_, _, hfrom, rfl⟩
    rw [countP_isBetween, hsame, ← countP_isBetween]
    refine ⟨_, Effect.delete hfrom hto, fun id hid ↦ ?_⟩
    rw [leaving_without, leaving_without, hleaving id hid]
  | aside hany hadded hreply => exact ⟨h, Effect.aside hany hadded hreply, hleaving⟩

/-! ## The shared graph -/

/-- The graph is shared by programs that started at `g₀`. To each belong the path that it is at home
at and the graph that would be there if it were alone. -/
structure Shared (digest : Digest) (g₀ : Graph) (lanes : List (String × Graph)) (g : Graph) :
    Prop where
  grown : Grown digest g₀ g
  grown_alone : ∀ l ∈ lanes, Grown digest g₀ l.2
  isSome_node? : ∀ id, (g.node? id).isSome ↔
    (g₀.node? id).isSome ∨ ∃ l ∈ lanes, (l.2.node? id).isSome
  leaving_own : ∀ l ∈ lanes, ∀ id, IsIdOf digest l.1 id → g.leaving id = l.2.leaving id
  leaving_other : ∀ id, (∀ l ∈ lanes, ¬ IsIdOf digest l.1 id) → g.leaving id = g₀.leaving id

theorem shared_start (hg : g.Textual digest) (paths : List String) :
    Shared digest g (paths.map fun path ↦ (path, g)) g where
  grown := grown_refl hg
  grown_alone l hl := by
    obtain ⟨path, -, rfl⟩ := List.mem_map.mp hl
    exact grown_refl hg
  isSome_node? id := by
    refine ⟨Or.inl, fun h ↦ h.elim (fun h ↦ h) ?_⟩
    rintro ⟨l, hl, hsome⟩
    obtain ⟨path, -, rfl⟩ := List.mem_map.mp hl
    exact hsome
  leaving_own l hl id _ := by
    obtain ⟨path, -, rfl⟩ := List.mem_map.mp hl
    rfl
  leaving_other _ _ := rfl

/-- **One step**: what a program at home does to the shared graph, it would do to its own. -/
theorem Shared.exists_alone (hd : Function.Injective digest) {before after : List (String × Graph)}
    (hpaths : ((before ++ (path, h) :: after).map (·.1)).Nodup)
    (hshared : Shared digest g₀ (before ++ (path, h) :: after) g) {g' : Graph}
    (hx : Effect digest path g r x g') :
    ∃ h', Effect digest path h r x h' ∧ Shared digest g₀ (before ++ (path, h') :: after) g' := by
  have hlane : (path, h) ∈ before ++ (path, h) :: after :=
    List.mem_append_right _ List.mem_cons_self
  obtain ⟨h', hh', hown⟩ := hx.exists_alone hd hshared.grown (hshared.grown_alone _ hlane)
    (hshared.leaving_own _ hlane)
  -- The other programs are at home elsewhere.
  have hothers : ∀ l ∈ before ++ after, l.1 ≠ path := by
    intro l hl hpath
    rw [List.map_append, List.map_cons, List.nodup_middle, List.nodup_cons, ← List.map_append]
      at hpaths
    have hmem : l.1 ∈ (before ++ after).map (·.1) := List.mem_map_of_mem hl
    rw [hpath] at hmem
    exact hpaths.1 hmem
  have hcases : ∀ k, ∀ l ∈ before ++ (path, k) :: after, l = (path, k) ∨ l ∈ before ++ after := by
    intro k l hl
    rw [List.mem_append, List.mem_cons] at hl
    rw [List.mem_append]
    exact or_left_comm.mp hl
  have hold : ∀ k, ∀ l ∈ before ++ after, l ∈ before ++ (path, k) :: after := fun k l hl ↦
    (List.perm_middle.mem_iff).mpr (List.mem_cons_of_mem _ hl)
  refine ⟨h', hh', ⟨hx.grown hshared.grown, fun l hl ↦ ?_, fun id ↦ ?_, fun l hl id hid ↦ ?_,
    fun id hid ↦ ?_⟩⟩
  · rcases hcases h' l hl with rfl | hl
    · exact hh'.grown (hshared.grown_alone _ hlane)
    · exact hshared.grown_alone l (hold h l hl)
  · rw [hx.isSome_node?, hshared.isSome_node?, or_assoc]
    refine or_congr_right ?_
    simp only [List.mem_append, List.mem_cons, or_and_right, exists_or, exists_eq_left,
      hh'.isSome_node?]
    rw [or_assoc, or_right_comm]
  · rcases hcases h' l hl with rfl | hl
    · exact hown id hid
    · have hne : ¬ IsIdOf digest path id := fun hpath ↦ hothers l hl (hid.inj hd hpath)
      rw [hx.leaving_other hne, hshared.leaving_own l (hold h l hl) id hid]
  · rw [hx.leaving_other (hid (path, h') (List.mem_append_right _ List.mem_cons_self)),
      hshared.leaving_other id fun l hl ↦ ?_]
    rcases hcases h l hl with rfl | hl
    · exact hid (path, h') (List.mem_append_right _ List.mem_cons_self)
    · exact hid l (hold h' l hl)

/-- **The shared graph is known** from the graphs that belong to the programs. -/
theorem Shared.mem_iff (hd : Function.Injective digest) {lanes lanes' : List (String × Graph)}
    (hlanes : ∀ l, l ∈ lanes ↔ l ∈ lanes') (hg : Shared digest g₀ lanes g)
    (hh : Shared digest g₀ lanes' h) :
    (∀ n, n ∈ g.nodes ↔ n ∈ h.nodes) ∧ ∀ r, r ∈ g.relationships ↔ r ∈ h.relationships := by
  have hsome : ∀ id, (g.node? id).isSome ↔ (h.node? id).isSome := by
    intro id
    rw [hg.isSome_node?, hh.isSome_node?]
    simp only [hlanes]
  have hleaving : ∀ id, g.leaving id = h.leaving id := by
    intro id
    by_cases hid : ∃ l ∈ lanes, IsIdOf digest l.1 id
    · obtain ⟨l, hl, hid⟩ := hid
      rw [hg.leaving_own l hl id hid, hh.leaving_own l ((hlanes l).mp hl) id hid]
    · rw [hg.leaving_other id fun l hl hown ↦ hid ⟨l, hl, hown⟩,
        hh.leaving_other id fun l hl hown ↦ hid ⟨l, (hlanes l).mpr hl, hown⟩]
  -- Both graphs have a node at the same ids, and it is the same node in both.
  have hnode : ∀ {g h : Graph}, Grown digest g₀ g → Grown digest g₀ h →
      (∀ id, (g.node? id).isSome → (h.node? id).isSome) → ∀ n ∈ g.nodes, n ∈ h.nodes := by
    intro g h hg hh hsome n hn
    have hn' := hg.textual.node?_eq hn
    obtain ⟨m, hm⟩ := Option.isSome_iff_exists.mp (hsome n.id (by rw [hn']; rfl))
    obtain rfl := hg.node?_unique hd hh hn' hm
    exact (mem_of_node? hm).1
  refine ⟨fun n ↦ ⟨hnode hg.grown hh.grown (fun id ↦ (hsome id).mp) n,
    hnode hh.grown hg.grown (fun id ↦ (hsome id).mpr) n⟩, fun r ↦ ?_⟩
  have hmem : ∀ k : Graph, r ∈ k.relationships ↔ r ∈ k.leaving r.sourceId :=
    fun k ↦ (mem_leaving.trans (and_iff_left rfl)).symm
  rw [hmem, hmem, hleaving]

/-- **Whoever else shares the graph**, what a program has at home is the same: the same relationships
leave its nodes, and they lead to the same nodes. -/
theorem Shared.leaving_eq (hd : Function.Injective digest) {lanes lanes' : List (String × Graph)}
    (hg : Shared digest g₀ lanes g) (hh : Shared digest g₀ lanes' h) {l : String × Graph}
    (hl : l ∈ lanes) (hl' : l ∈ lanes') {id : String} (hid : IsIdOf digest l.1 id) :
    g.leaving id = h.leaving id ∧
      ∀ r ∈ g.leaving id, g.node? r.targetId = h.node? r.targetId := by
  have hleaving : g.leaving id = h.leaving id :=
    (hg.leaving_own l hl id hid).trans (hh.leaving_own l hl' id hid).symm
  refine ⟨hleaving, fun r hr ↦ ?_⟩
  obtain ⟨n, hn⟩ := hg.grown.textual.target_mem r (mem_leaving.mp hr).1
  obtain ⟨m, hm⟩ := hh.grown.textual.target_mem r (mem_leaving.mp (hleaving ▸ hr)).1
  rw [hn, hm, hg.grown.node?_unique hd hh.grown hn hm]

end Graph

/-! ## Runs that share a graph -/

/-- Programs that have ended have come to the outcomes and graphs that were foreseen. -/
private theorem forall₂_of_ended {ι α : Type} {answers : Answering Graph}
    {Q : ι → Except Fault α → Graph → Prop} {lanes : List (ι × Program α × Graph)}
    {xs : List (Except Fault α)} (hps : lanes.map (·.2.1) = xs.map Program.ofExcept)
    (hends : ∀ l ∈ lanes, l.2.1.Ends answers (Q l.1) l.2.2) :
    List.Forall₂ (fun l x ↦ Q l.1 x l.2.2) lanes xs := by
  induction lanes generalizing xs with
  | nil =>
    obtain rfl := List.map_eq_nil_iff.mp hps.symm
    exact List.Forall₂.nil
  | cons l lanes ih =>
    obtain ⟨x, xs, rfl, hx, htail⟩ := List.map_eq_cons_iff.mp hps.symm
    have hl : l.2.1 = Program.ofExcept x := hx.symm
    rw [List.forall_mem_cons, hl, Program.ends_ofExcept] at hends
    exact (ih htail.symm hends.2).cons hends.1

section Runs

variable {ι α σ : Type} {digest digest' : Digest} {store : σ → Store} {respond : Responder σ}

/-- Each lane, a program with what is known of it and with the graph that belongs to it, ends as
foreseen: with an outcome and with a graph of its own. -/
theorem Serves.exists_ends_of_lanes (hserves : Serves digest store respond)
    (hd : Function.Injective digest') (path : ι → String) (Q : ι → Except Fault α → Graph → Prop)
    (lanes : List (ι × Program α × Graph)) {g₀ g : Graph} {s t : σ} {rs : List Request}
    {xs : List (Except Fault α)}
    (hrun : Program.Interleaves respond (lanes.map (·.2.1)) s rs xs t)
    (hagree : ∀ r ∈ rs, ∀ t ∈ r.hashed digest, digest t = digest' t) (hs : (store s).Holds g)
    (hpaths : (lanes.map fun l ↦ path l.1).Nodup)
    (hshared : Graph.Shared digest' g₀ (lanes.map fun l ↦ (path l.1, l.2.2)) g)
    (hasks : ∀ l ∈ lanes,
      l.2.1.Asks (Request.IsAtHome (path l.1)) Request.IsTextualReply fun _ ↦ True)
    (hends : ∀ l ∈ lanes, l.2.1.Ends (Graph.Answers digest') (Q l.1) l.2.2) :
    ∃ g', (store t).Holds g' ∧ ∃ ends : List (ι × Graph), ends.map (·.1) = lanes.map (·.1) ∧
      Graph.Shared digest' g₀ (ends.map fun e ↦ (path e.1, e.2)) g' ∧
      List.Forall₂ (fun e x ↦ Q e.1 x e.2) ends xs ∧ ∀ r ∈ rs, r.IsTextual := by
  -- By induction on the run: the program whose turn it is makes the same step alone.
  generalize hps : lanes.map (·.2.1) = ps at hrun
  induction hrun generalizing lanes g with
  | ended xs s =>
    refine ⟨g, hs, lanes.map fun l ↦ (l.1, l.2.2), ?_, ?_, ?_,
      fun r hr ↦ absurd hr List.not_mem_nil⟩
    · rw [List.map_map]
      rfl
    · rw [List.map_map]
      exact hshared
    · rw [List.forall₂_map_left_iff]
      exact forall₂_of_ended hps hends
  | @turn before after r k s t rs xs hrun ih =>
    obtain ⟨lanes₁, lanes₂, rfl, rfl, htail⟩ := List.map_eq_append_iff.mp hps
    obtain ⟨⟨i, p, h⟩, lanes₂, rfl, hp, rfl⟩ := List.map_eq_cons_iff.mp htail
    obtain rfl : p = .ask r k := hp
    rw [List.forall_mem_cons] at hagree
    obtain ⟨g', hg', hanswer⟩ := hserves.answers hagree.1 hs
    have hlane : (i, Program.ask r k, h) ∈ lanes₁ ++ (i, .ask r k, h) :: lanes₂ :=
      List.mem_append_right _ List.mem_cons_self
    have heffect := Graph.effect_of_answers hshared.grown.textual (hasks _ hlane).1 hanswer
    rw [List.map_append, List.map_cons] at hshared
    obtain ⟨h', halone, hshared'⟩ := hshared.exists_alone hd
      (by rw [← List.map_cons (f := fun l : ι × Program α × Graph ↦ (path l.1, l.2.2)),
        ← List.map_append, List.map_map]; exact hpaths) heffect
    have hold : ∀ {C : ι × Program α × Graph → Prop},
        (∀ l ∈ lanes₁ ++ (i, .ask r k, h) :: lanes₂, C l) → C (i, k (respond r s).1, h') →
        ∀ l ∈ lanes₁ ++ (i, k (respond r s).1, h') :: lanes₂, C l := by
      intro C hC hnew l hl
      rcases List.mem_append.mp hl with hl | hl
      · exact hC l (List.mem_append_left _ hl)
      · rcases List.mem_cons.mp hl with rfl | hl
        · exact hnew
        · exact hC l (List.mem_append_right _ (List.mem_cons_of_mem _ hl))
    obtain ⟨g'', hg'', ends, hfst, hfinal, hxs, htextual⟩ := ih
      (lanes₁ ++ (i, k (respond r s).1, h') :: lanes₂) hagree.2 hg'
      (by simpa using hpaths) (by simpa using hshared')
      (hold hasks ((hasks _ hlane).2 _ (heffect.isTextualReply hshared.grown.textual)))
      (hold hends (hends _ hlane _ h' (halone.answers
        (hshared.grown_alone _ (List.mem_append_right _ List.mem_cons_self)).textual)))
      (by simp)
    exact ⟨g'', hg'', ends, by simpa using hfst, hfinal, hxs,
      List.forall_mem_cons.mpr ⟨(hasks _ hlane).1.isTextual, htextual⟩⟩

/-- **Programs that take turns end as if each were alone**, if every one of them is at home at a
path of its own: there are the graphs that they would have ended with, and the graph is shared as these
say. -/
theorem Serves.exists_ends_of_interleaves (hserves : Serves digest store respond)
    (hd : Function.Injective digest') (path : ι → String) (p : ι → Program α)
    (Q : ι → Except Fault α → Graph → Prop) {items : List ι} {g : Graph} (hg : g.Textual digest')
    (hpaths : (items.map path).Nodup)
    (hasks : ∀ i ∈ items,
      (p i).Asks (Request.IsAtHome (path i)) Request.IsTextualReply fun _ ↦ True)
    (hends : ∀ i ∈ items, (p i).Ends (Graph.Answers digest') (Q i) g) {s t : σ} {rs : List Request}
    {xs : List (Except Fault α)} (hrun : Program.Interleaves respond (items.map p) s rs xs t)
    (hagree : ∀ r ∈ rs, ∀ t ∈ r.hashed digest, digest t = digest' t) (hs : (store s).Holds g) :
    ∃ h, (store t).Holds h ∧ ∃ ends : List (ι × Graph), ends.map (·.1) = items ∧
      Graph.Shared digest' g (ends.map fun e ↦ (path e.1, e.2)) h ∧
      List.Forall₂ (fun e x ↦ Q e.1 x e.2) ends xs ∧ ∀ r ∈ rs, r.IsTextual := by
  have hlanes : ∀ {β : Type} (f : ι × Program α × Graph → β),
      (items.map fun i ↦ (i, p i, g)).map f = items.map fun i ↦ f (i, p i, g) :=
    fun f ↦ List.map_map
  have hshared := Graph.shared_start hg (items.map path)
  rw [List.map_map] at hshared
  have h := hserves.exists_ends_of_lanes hd path Q (items.map fun i ↦ (i, p i, g))
    (by rw [hlanes]; exact hrun) hagree hs (by rw [hlanes]; exact hpaths)
    (by rw [hlanes]; exact hshared) (List.forall_mem_map.mpr hasks) (List.forall_mem_map.mpr hends)
  rwa [hlanes, List.map_id'] at h

end Runs

end CodeAtlas
