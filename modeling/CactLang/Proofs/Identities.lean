import CactLang.Proofs.Building
import CactLang.Proofs.RoundTrip
import Mathlib.Data.List.Nodup

/-!
# Node identities

Identities are handed out one after the other, and a piece takes its own when it is made, so
after all pieces in it. In the order in which pieces are made, the identities are therefore
consecutive; nothing else has to be known about the grammar.

> What is parsed has the identity `0`, and its other nodes have increasing identities from
> `1` on, children before their parent. Left out is one identity for each assignment: the
> one after that of its target.
-/

namespace CactLang

/-- The variables that are assigned to. -/
def Program.targets (p : Program) : List LValue :=
  p.nodes.filterMap Node.target?

/-! ## The order in which pieces are made -/

namespace Piece

/-- The pieces were made one after the other from `c` to `d`, and the outermost ones of them
are `xs`. -/
structure Sequence (ps : List Piece) (c : Cursor) (xs : List Piece) (d : Cursor) : Prop where
  le : c.nodeCount ≤ d.nodeCount
  ids : ps.flatMap ids = (List.range' c.nodeCount (d.nodeCount - c.nodeCount)).map NodeId.mk
  nodes : ps.filterMap node? = xs.flatMap nodes
  /-- Each target stands in an assignment that was made, or it is one of the outermost. -/
  targets : (ps.filterMap target?).Perm
    ((xs.flatMap Piece.nodes).filterMap Node.target? ++ xs.filterMap target?)

variable {ps qs xs ys : List Piece} {c d e : Cursor} {x : Piece}

/-- Identities up to `d`, and then those up to `e`. -/
theorem map_range'_append {a b n : Nat} (hab : a ≤ b) (hbn : b ≤ n) :
    (List.range' a (b - a)).map NodeId.mk ++ (List.range' b (n - b)).map NodeId.mk =
      (List.range' a (n - a)).map NodeId.mk := by
  have hsplit : n - a = (b - a) + (n - b) := by omega
  have hstart : a + (b - a) = b := by omega
  rw [← List.map_append, hsplit, ← List.range'_append_1, hstart]

namespace Sequence

theorem none (hcount : d.nodeCount = c.nodeCount) : Sequence [] c [] d := by
  refine ⟨Nat.le_of_eq hcount.symm, ?_, rfl, .refl _⟩
  rw [hcount, Nat.sub_self]
  rfl

theorem append (hp : Sequence ps c xs d) (hq : Sequence qs d ys e) :
    Sequence (ps ++ qs) c (xs ++ ys) e := by
  refine ⟨Nat.le_trans hp.le hq.le, ?_, ?_, ?_⟩
  · rw [List.flatMap_append, hp.ids, hq.ids, map_range'_append hp.le hq.le]
  · rw [List.filterMap_append, hp.nodes, hq.nodes, List.flatMap_append]
  · rw [List.filterMap_append, List.flatMap_append, List.filterMap_append, List.filterMap_append]
    have hboth := hp.targets.append hq.targets
    rw [List.append_assoc] at hboth ⊢
    refine hboth.trans (.append_left _ ?_)
    rw [← List.append_assoc, ← List.append_assoc]
    exact List.perm_append_comm.append_right _

/-- A target that stands in a piece belongs to it if it is an assignment, and it is the
variable of the piece if that is a target. -/
theorem target?_inner (x : Piece) :
    (x.inner.filterMap target?) = (x.node?.toList).filterMap Node.target? := by
  cases x with
  | node n =>
    rw [inner, Node.filterMap_target?_inner]
    cases htarget : n.target? <;> simp [node?, htarget]
  | dim d => rfl
  | target l => rfl

theorem piece (hp : Sequence ps c x.inner d)
    (hids : x.ids = (List.range' d.nodeCount x.ids.length).map NodeId.mk) :
    Sequence (ps ++ [x]) c [x] (d.skip x) := by
  have hcount : (d.skip x).nodeCount = d.nodeCount + x.ids.length := rfl
  refine ⟨Nat.le_trans hp.le (Nat.le_add_right _ _), ?_, ?_, ?_⟩
  · have hx : x.ids =
        (List.range' d.nodeCount ((d.skip x).nodeCount - d.nodeCount)).map NodeId.mk := by
      rw [hcount, Nat.add_sub_cancel_left]
      exact hids
    rw [List.flatMap_append, hp.ids, List.flatMap_singleton, hx]
    exact map_range'_append hp.le (Nat.le_add_right _ _)
  · rw [List.filterMap_append, hp.nodes, List.flatMap_singleton, nodes_eq]
    cases x <;> rfl
  · rw [List.filterMap_append, List.flatMap_singleton, nodes_eq, List.filterMap_append,
      ← target?_inner]
    exact hp.targets.append_right _

end Sequence

/-- What is built was made one piece after the other. -/
theorem exists_sequence (h : c.Builds xs d) : ∃ ps, Sequence ps c xs d := by
  induction h with
  | none c => exact ⟨[], .none rfl⟩
  | token hk =>
    refine ⟨[], .none ?_⟩
    unfold Cursor.advance
    split <;> rfl
  | piece _ hends ih =>
    obtain ⟨ps, hps⟩ := ih
    exact ⟨_, hps.piece hends.ids⟩
  | append _ _ ihx ihy =>
    obtain ⟨ps, hps⟩ := ihx
    obtain ⟨qs, hqs⟩ := ihy
    exact ⟨_, hps.append hqs⟩

/-! ## Identities of nodes and of targets -/

/-- The identities of the nodes come in the order in which the nodes were made. -/
theorem sublist_ids (ps : List Piece) :
    ((ps.filterMap node?).map Node.id).Sublist (ps.flatMap ids) := by
  induction ps with
  | nil => exact .refl _
  | cons x ps ih =>
    cases x with
    | node n => exact ih.cons_cons n.id
    | dim d => exact ih
    | target l => exact ih.cons _

/-- The identities that are handed out go to nodes and to targets. -/
theorem perm_ids (ps : List Piece) :
    (ps.flatMap ids).Perm ((ps.filterMap node?).map Node.id ++
      (ps.filterMap target?).map fun l => ⟨l.id.index + 1⟩) := by
  induction ps with
  | nil => exact .refl _
  | cons x ps ih =>
    cases x with
    | node n => exact ih.cons n.id
    | dim d => exact ih
    | target l => exact (ih.cons _).trans List.perm_middle.symm

end Piece

/-- The numbers of the nodes of what is parsed, and those after the numbers of the variables
that are assigned to, are all the numbers from `1` on. -/
theorem parse_numbers {tokens : List Token} {file : String} {p : Program} {c : Cursor}
    (h : parse tokens file = .ok p c) :
    (p.nodes.map (·.id.index)).Sublist (List.range' 1 (c.nodeCount - 1)) ∧
      (List.range' 1 (c.nodeCount - 1)).Perm
        (p.nodes.map (·.id.index) ++ p.targets.map (·.id.index + 1)) ∧
      1 ≤ c.nodeCount := by
  obtain ⟨_, hbuilds, _⟩ := parse_builds h
  obtain ⟨ps, hps⟩ := Piece.exists_sequence hbuilds
  have hnodes : ps.filterMap Piece.node? = p.nodes := hps.nodes.trans p.nodes_eq.symm
  -- no item of a program is itself a target
  have htargets : (ps.filterMap Piece.target?).Perm p.targets := by
    have hitem : Piece.target? ∘ Item.piece = fun _ => none := by
      funext item
      cases item <;> rfl
    have hperm := hps.targets
    rw [← p.nodes_eq, List.filterMap_map, hitem, List.filterMap_none, List.append_nil] at hperm
    exact hperm
  -- the identities of all pieces, in the order of their making, are counted without a gap
  have hnumbers : (ps.flatMap Piece.ids).map NodeId.index = List.range' 1 (c.nodeCount - 1) := by
    rw [hps.ids, List.map_map]
    exact List.map_id _
  rw [← hnumbers]
  refine ⟨?_, ?_, hps.le⟩
  · have hsublist := (Piece.sublist_ids ps).map NodeId.index
    rw [hnodes, List.map_map] at hsublist
    exact hsublist
  · have hperm := (Piece.perm_ids ps).map NodeId.index
    rw [hnodes, List.map_append, List.map_map, List.map_map] at hperm
    exact hperm.trans ((htargets.map _).append_left _)

/-- The nodes of what is parsed are numbered from `1` on in the order of the tree, children
before their parent, and the program itself comes first of all. The only numbers left out are
those that follow the number of a variable that is assigned to. -/
theorem parse_numbers_nodes {tokens : List Token} {file : String} {p : Program} {c : Cursor}
    (h : parse tokens file = .ok p c) :
    p.id = ⟨0⟩ ∧
      (p.nodes.map (·.id.index)).Pairwise (· < ·) ∧
      (∀ n ∈ p.nodes, 1 ≤ n.id.index ∧ n.id.index < c.nodeCount) ∧
      (∀ k, 1 ≤ k → k < c.nodeCount →
        ((∀ n ∈ p.nodes, n.id.index ≠ k) ↔ ∃ l ∈ p.targets, l.id.index + 1 = k)) ∧
      (p.targets.map (·.id.index)).Nodup ∧
      c.nodeCount = 1 + p.nodes.length + p.targets.length := by
  obtain ⟨hsublist, hperm, hone⟩ := parse_numbers h
  -- the numbers that are missing among nodes are those spent on targets
  have hnodup := hperm.nodup_iff.mp (List.nodup_range' _)
  obtain ⟨_, hdistinct, happart⟩ := List.nodup_append.mp hnodup
  refine ⟨(parse_builds h).1, ?_, ?_, ?_, ?_, ?_⟩
  · exact List.Pairwise.sublist hsublist (List.pairwise_lt_range' _)
  · intro n hn
    have hmem := List.mem_range'_1.mp (hsublist.subset (List.mem_map_of_mem hn))
    exact ⟨hmem.1, by omega⟩
  · intro k hk₁ hk₂
    have hmem : k ∈ List.range' 1 (c.nodeCount - 1) := List.mem_range'_1.mpr ⟨hk₁, by omega⟩
    constructor
    · intro hmissing
      rcases List.mem_append.mp (hperm.mem_iff.mp hmem) with hnode | htarget
      · obtain ⟨n, hn, hnk⟩ := List.mem_map.mp hnode
        exact absurd hnk (hmissing n hn)
      · obtain ⟨l, hl, hlk⟩ := List.mem_map.mp htarget
        exact ⟨l, hl, hlk⟩
    · rintro ⟨l, hl, hlk⟩ n hn hnk
      exact happart k (List.mem_map.mpr ⟨n, hn, hnk⟩) k (List.mem_map.mpr ⟨l, hl, hlk⟩) rfl
  · exact (List.Nodup.of_map (· + 1)) (by rw [List.map_map]; exact hdistinct)
  · have hlength := hperm.length_eq
    rw [List.length_range', List.length_append, List.length_map, List.length_map] at hlength
    omega

theorem parse_numbers_nodes_commentedSource :
    ∃ tokens p c, tokenize commentedSource = .ok tokens ∧ parse tokens "shell" = .ok p c ∧
      p.id = ⟨0⟩ ∧
      (p.nodes.map (·.id.index)).Pairwise (· < ·) ∧
      (∀ n ∈ p.nodes, 1 ≤ n.id.index ∧ n.id.index < c.nodeCount) ∧
      (∀ k, 1 ≤ k → k < c.nodeCount →
        ((∀ n ∈ p.nodes, n.id.index ≠ k) ↔ ∃ l ∈ p.targets, l.id.index + 1 = k)) ∧
      (p.targets.map (·.id.index)).Nodup ∧
      c.nodeCount = 1 + p.nodes.length + p.targets.length := by
  obtain ⟨tokens, p, c, hscan, hparse⟩ :=
    exists_of_readsSource commentedSource (by decide +kernel)
  exact ⟨tokens, p, c, hscan, hparse, parse_numbers_nodes hparse⟩

end CactLang
