/-
  Util/ObjectPool.lean --- `ObjectPool` of `util/util_misc.h`.

  The objects are numbered as they are made; a number stands for the pointer.
-/
import Mathlib.Data.List.Nodup
import Mathlib.Logic.Function.Basic

set_option autoImplicit false

namespace StormNet.Util

open Function (update update_self update_of_ne)

/-- `ObjectPool<T>`, with all objects it has made. -/
structure ObjectPool (T : Type) where
  /-- `m_nodeNum` -/
  nodeNum : Nat
  /-- `m_freeNode` -/
  freeNode : List Nat
  /-- the number of objects made so far -/
  made : Nat
  object : Nat → T

namespace ObjectPool

variable {T : Type}

/-- `m_freeNode.push_back(new T)`; `fresh` is what the constructor of `T` gives. -/
def makeNode (fresh : T) (p : ObjectPool T) : ObjectPool T :=
  { p with
    freeNode := p.freeNode ++ [p.made]
    made := p.made + 1
    object := update p.object p.made fresh }

/-- `expandNode`. -/
def expandNode (fresh : T) (p : ObjectPool T) : ObjectPool T :=
  (List.range p.nodeNum).foldl (fun p _ => p.makeNode fresh) p

/-- `ObjectPool(nodeNum)`. -/
def new (fresh : T) (nodeNum : Nat) : ObjectPool T :=
  expandNode fresh ⟨nodeNum, [], 0, fun _ => fresh⟩

/-- `get`; the front of an empty list is undefined. -/
def get (fresh : T) (p : ObjectPool T) : Option (Nat × ObjectPool T) :=
  let p := if p.freeNode.isEmpty then p.expandNode fresh else p
  match p.freeNode with
  | [] => none
  | node :: freeNode => some (node, { p with freeNode := freeNode })

/-- `put`. -/
def put (p : ObjectPool T) (node : Nat) : ObjectPool T := { p with freeNode := p.freeNode ++ [node] }

/-- Something is done to an object. -/
def store (p : ObjectPool T) (node : Nat) (t : T) : ObjectPool T :=
  { p with object := update p.object node t }

/-- Each object that was made has one owner at most: it is free, or in `held`; and the free
ones meet `P`. -/
structure Sound (P : T → Prop) (held : Nat → Prop) (p : ObjectPool T) : Prop where
  nodup : p.freeNode.Nodup
  free : ∀ node ∈ p.freeNode, node < p.made ∧ ¬ held node ∧ P (p.object node)
  held_lt : ∀ node, held node → node < p.made

variable {P : T → Prop} {held : Nat → Prop} {p p' : ObjectPool T} {fresh : T} {node : Nat}

theorem Sound.makeNode (h : p.Sound P held) (hfresh : P fresh) :
    (p.makeNode fresh).Sound P held where
  nodup := by
    refine List.Nodup.append h.nodup (List.nodup_singleton _) ?_
    rw [List.disjoint_singleton]
    intro hmade
    exact Nat.lt_irrefl _ (h.free _ hmade).1
  free node hnode := by
    rcases List.mem_append.mp hnode with hnode | hnode
    · obtain ⟨hlt, hheld, hP⟩ := h.free node hnode
      refine ⟨Nat.lt_succ_of_lt hlt, hheld, ?_⟩
      show P (update p.object p.made fresh node)
      rwa [update_of_ne (Nat.ne_of_lt hlt)]
    · rw [List.mem_singleton.mp hnode]
      refine ⟨Nat.lt_succ_self _, fun hmade => Nat.lt_irrefl _ (h.held_lt _ hmade), ?_⟩
      show P (update p.object p.made fresh p.made)
      rwa [update_self]
  held_lt node hnode := Nat.lt_succ_of_lt (h.held_lt node hnode)

/-- New objects are made behind the old ones. -/
structure Grows (p p' : ObjectPool T) : Prop where
  made_le : p.made ≤ p'.made
  object_eq : ∀ node, node < p.made → p'.object node = p.object node
  nodeNum_eq : p'.nodeNum = p.nodeNum

theorem Grows.refl (p : ObjectPool T) : p.Grows p := ⟨Nat.le_refl _, fun _ _ => rfl, rfl⟩

theorem Grows.makeNode (h : p.Grows p') : p.Grows (p'.makeNode fresh) where
  made_le := Nat.le_succ_of_le h.made_le
  object_eq node hnode := by
    show update p'.object p'.made fresh node = p.object node
    rw [update_of_ne (Nat.ne_of_lt (Nat.lt_of_lt_of_le hnode h.made_le)), h.object_eq node hnode]
  nodeNum_eq := h.nodeNum_eq

theorem sound_expandNode (h : p.Sound P held) (hfresh : P fresh) :
    (p.expandNode fresh).Sound P held ∧ p.Grows (p.expandNode fresh) ∧
      (p.expandNode fresh).freeNode.length = p.freeNode.length + p.nodeNum := by
  have hloop : ∀ (turns : List Nat) (q : ObjectPool T), q.Sound P held → p.Grows q →
      (turns.foldl (fun q _ => q.makeNode fresh) q).Sound P held ∧
        p.Grows (turns.foldl (fun q _ => q.makeNode fresh) q) ∧
        (turns.foldl (fun q _ => q.makeNode fresh) q).freeNode.length =
          q.freeNode.length + turns.length := by
    intro turns
    induction turns with
    | nil => exact fun q hq hgrows => ⟨hq, hgrows, rfl⟩
    | cons turn turns ih =>
      intro q hq hgrows
      obtain ⟨hsound, hmore, hlength⟩ := ih _ (hq.makeNode hfresh) hgrows.makeNode
      refine ⟨hsound, hmore, ?_⟩
      rw [List.foldl_cons, hlength, ObjectPool.makeNode, List.length_append, List.length_singleton,
        List.length_cons]
      omega
  have hrange := hloop (List.range p.nodeNum) p h (.refl p)
  rw [List.length_range] at hrange
  exact hrange

/-- **An object that is given out was free**, meets `P`, and nobody else has it; the other
objects stay as they are. -/
theorem Sound.get (h : p.Sound P held) (hfresh : P fresh) (hnum : 0 < p.nodeNum) :
    ∃ node p', p.get fresh = some (node, p') ∧ P (p'.object node) ∧ ¬ held node ∧
      p'.Sound P (fun n => n = node ∨ held n) ∧ p.Grows p' := by
  have hready : ∃ q, (if p.freeNode.isEmpty then p.expandNode fresh else p) = q ∧
      q.Sound P held ∧ p.Grows q ∧ q.freeNode ≠ [] := by
    by_cases hempty : p.freeNode.isEmpty = true
    · obtain ⟨hsound, hgrows, hlength⟩ := sound_expandNode h hfresh
      refine ⟨_, if_pos hempty, hsound, hgrows, ?_⟩
      rw [← List.length_pos_iff_ne_nil]
      omega
    · refine ⟨p, if_neg hempty, h, .refl p, ?_⟩
      rwa [List.isEmpty_iff] at hempty
  obtain ⟨q, hq, hsound, hgrows, hne⟩ := hready
  obtain ⟨node, freeNode, hfree⟩ := List.exists_cons_of_ne_nil hne
  have hnodup := hsound.nodup
  rw [hfree, List.nodup_cons] at hnodup
  have hall := hsound.free
  rw [hfree] at hall
  obtain ⟨hlt, hheld, hP⟩ := hall node List.mem_cons_self
  refine ⟨node, { q with freeNode := freeNode }, ?_, hP, hheld, ⟨hnodup.2, ?_, ?_⟩,
    hgrows.made_le, hgrows.object_eq, hgrows.nodeNum_eq⟩
  · simp only [ObjectPool.get, hq, hfree]
  · intro other hother
    obtain ⟨hlt', hheld', hP'⟩ := hall other (List.mem_cons_of_mem _ hother)
    refine ⟨hlt', ?_, hP'⟩
    rintro (rfl | hheld'')
    · exact hnodup.1 hother
    · exact hheld' hheld''
  · rintro other (rfl | hother)
    · exact hlt
    · exact hsound.held_lt other hother

/-- Fewer objects are held. -/
theorem Sound.mono {held' : Nat → Prop} (h : p.Sound P held)
    (hheld : ∀ node, held' node → held node) : p.Sound P held' where
  nodup := h.nodup
  free node hnode := ⟨(h.free node hnode).1, mt (hheld node) (h.free node hnode).2.1,
    (h.free node hnode).2.2⟩
  held_lt node hnode := h.held_lt node (hheld node hnode)

/-- An object is given back. -/
theorem Sound.put (h : p.Sound P held) (hnode : held node) (hP : P (p.object node)) :
    (p.put node).Sound P (fun n => n ≠ node ∧ held n) where
  nodup := by
    refine List.Nodup.append h.nodup (List.nodup_singleton _) ?_
    rw [List.disjoint_singleton]
    intro hfree
    exact (h.free node hfree).2.1 hnode
  free other hother := by
    rcases List.mem_append.mp hother with hother | hother
    · obtain ⟨hlt, hheld, hP'⟩ := h.free other hother
      exact ⟨hlt, fun hboth => hheld hboth.2, hP'⟩
    · rw [List.mem_singleton.mp hother]
      exact ⟨h.held_lt node hnode, fun hboth => hboth.1 rfl, hP⟩
  held_lt other hother := h.held_lt other hother.2

/-- What is done to an object that is held. -/
theorem Sound.store (h : p.Sound P held) (hnode : held node) (t : T) :
    (p.store node t).Sound P held where
  nodup := h.nodup
  free other hother := by
    obtain ⟨hlt, hheld, hP⟩ := h.free other hother
    refine ⟨hlt, hheld, ?_⟩
    have hne : other ≠ node := by
      rintro rfl
      exact hheld hnode
    show P (update p.object node t other)
    rwa [update_of_ne hne]
  held_lt := h.held_lt

theorem sound_new (hfresh : P fresh) (nodeNum : Nat) :
    (new fresh nodeNum).Sound P (fun _ => False) ∧ (new fresh nodeNum).nodeNum = nodeNum := by
  have hnone : (⟨nodeNum, [], 0, fun _ => fresh⟩ : ObjectPool T).Sound P (fun _ => False) :=
    ⟨List.nodup_nil, (fun _ hnode => by cases hnode), fun _ hnode => hnode.elim⟩
  obtain ⟨hsound, hgrows, -⟩ := sound_expandNode hnone hfresh
  exact ⟨hsound, hgrows.nodeNum_eq⟩

end ObjectPool

end StormNet.Util
