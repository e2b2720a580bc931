import Harmony.RouteSearch
import Mathlib.Data.List.Induction

/-!
# The index that a node keeps

Two routes of one method may end at the same node. The later one overwrites the
index of the earlier one there, and an index is cut to sixteen bits when it is
stored. What a node finally has for a method is therefore read off the list of
the routes by looking at the last of them that ends there (`storedIndex`), and
`RouteNode.Indexes` says that every node of a tree has it.
-/

open PrefixOrder

/-- The number of the last route of a method with a pattern. -/
def lastIndex (m : HttpMethod) (k : List RouteNodeData) (R : List Route) :
    Option ℕ :=
  R.reverse.findSome? fun r => if r.1 = k ∧ r.2.1 = m then some r.2.2 else none

/-- **The index stored at the node of a pattern**: that of the last route, or
what was in memory. -/
def storedIndex (u : Uninit) (R : List Route) (m : HttpMethod)
    (k : List RouteNodeData) : ℕ :=
  match lastIndex m k R with
  | some index => (UInt16.ofNat index).toNat
  | none => ((u k).2 m).toNat

/-- One more route is the last one of its own pattern and method. -/
theorem lastIndex_append (m : HttpMethod) (k : List RouteNodeData)
    (R : List Route) (r : Route) :
    lastIndex m k (R ++ [r])
      = if r.1 = k ∧ r.2.1 = m then some r.2.2 else lastIndex m k R := by
  unfold lastIndex
  rw [List.reverse_append, List.reverse_singleton, List.singleton_append,
    List.findSome?_cons]
  split_ifs <;> rfl

/-- The routes below a level have the indices they have above it. -/
theorem lastIndex_below (m : HttpMethod) (d : RouteNodeData)
    (k : List RouteNodeData) (R : List Route) :
    lastIndex m k (below d R) = lastIndex m (d :: k) R := by
  induction R using List.reverseRecOn with
  | nil => rfl
  | append_singleton R r ih =>
    rw [below_append, lastIndex_append]
    obtain ⟨_ | ⟨e, t⟩, m', index⟩ := r
    · rw [below_singleton_nil, List.append_nil, ih]
      simp
    · by_cases he : e = d
      · rw [he, below_singleton_self, lastIndex_append, ih]
        simp
      · rw [below_singleton_ne he, List.append_nil, ih]
        simp [he]

theorem storedIndex_below (u : Uninit) (R : List Route) (m : HttpMethod)
    (d : RouteNodeData) (k : List RouteNodeData) :
    storedIndex (u.below d) (below d R) m k = storedIndex u R m (d :: k) := by
  rw [storedIndex, lastIndex_below]
  rfl

namespace RouteNode

/-- **Every node below has the index of its last route.** -/
inductive Indexes : Uninit → RouteNode → List Route → Prop
  | node {u : Uninit} {n : RouteNode} {R : List Route}
      (index : ∀ m, (n.routeIndex m).toNat = storedIndex u R m [])
      (children : ∀ c ∈ n.children,
        Indexes (u.below c.data) c (below c.data R)) :
      Indexes u n R

/-- A new inner node has what was in memory. -/
theorem indexes_ofData (d : RouteNodeData) (u : Uninit) :
    Indexes u (ofData d u false) [] :=
  .node (fun _ => rfl) (fun _ hc => absurd hc List.not_mem_nil)

/-- A route that ends at a node overwrites the index of its method. -/
theorem storedIndex_update {u : Uninit} {R : List Route} {n : RouteNode}
    (h : ∀ m, (n.routeIndex m).toNat = storedIndex u R m []) (m : HttpMethod)
    (index : ℕ) (m' : HttpMethod) :
    (Function.update n.routeIndex m (UInt16.ofNat index) m').toNat
      = storedIndex u (R ++ [([], m, index)]) m' [] := by
  rw [storedIndex, lastIndex_append]
  by_cases hm : m' = m
  · rw [hm, Function.update_self]
    simp
  · rw [Function.update_of_ne hm, h, storedIndex]
    simp [Ne.symm hm]

/-- A route that goes on leaves the indices alone. -/
theorem storedIndex_append_cons (u : Uninit) (R : List Route) (m' : HttpMethod)
    (d : RouteNodeData) (ds : List RouteNodeData) (y : HttpMethod × ℕ) :
    storedIndex u (R ++ [(d :: ds, y)]) m' [] = storedIndex u R m' [] := by
  rw [storedIndex, lastIndex_append]
  simp [storedIndex]

/-- **Registering a route keeps it.** -/
theorem indexes_insertLevels (m : HttpMethod) (index : ℕ)
    (ds : List RouteNodeData) (hds : ∀ d ∈ ds, d.type ≠ .root) {u : Uninit}
    {n : RouteNode} {R : List Route} (h : Represents u n R)
    (hindexes : Indexes u n R) :
    Indexes u (insertLevels u n m index ds) (R ++ [(ds, m, index)]) := by
  induction ds generalizing u n R with
  | nil =>
    cases hindexes with
    | node hindex hchildren =>
      refine .node (storedIndex_update hindex m index) fun c hc => ?_
      rw [below_append, below_singleton_nil, List.append_nil]
      exact hchildren c hc
  | cons d ds ih =>
    have hd := hds d List.mem_cons_self
    have hds' : ∀ d ∈ ds, d.type ≠ .root :=
      fun d' hd' => hds d' (List.mem_cons_of_mem d hd')
    have hfind := findIdx_eqData n.children hd
    cases hindexes with
    | node hindex hchildren =>
    cases h with
    | node terminal methods indexed order starts types children =>
    rw [insertLevels]
    refine .node (fun m' => ?_) ?_
    · rw [storedIndex_append_cons]
      exact hindex m'
    cases hidx : n.children.findIdx? (fun child => child.data.eqData d) with
    | none =>
      rw [hidx] at hfind
      have hstarts : ¬ Starts d R := fun hs => hfind ((starts d).mpr hs)
      by_cases hlast : ds = []
      · subst hlast
        exact children_append hfind hstarts hchildren rfl
          (.node (storedIndex_update (R := []) (fun _ => rfl) m index)
            (fun _ hc => absurd hc List.not_mem_nil))
      · simp only [if_neg hlast]
        exact children_append hfind hstarts hchildren
          (data_insertLevels _ _ _ _ _)
          (ih hds' (represents_ofData d (u.below d))
            (indexes_ofData d (u.below d)))
    | some i =>
      rw [hidx] at hfind
      obtain ⟨hi, hold⟩ := hfind
      have hget : n.children.getD i n = n.children[i] :=
        (List.getElem_eq_getD n).symm
      have hmem := List.getElem_mem hi
      have hrep := children _ hmem
      have hchild := hchildren _ hmem
      rw [hold] at hrep hchild
      simp only [hget]
      exact children_set (nodup_of_order order) hi hold hchildren
        ((data_insertLevels _ _ _ _ _).trans hold) (ih hds' hrep hchild)

/-- The way starts at the node that is searched. -/
theorem Leads.exists_pattern {m : HttpMethod} {n : RouteNode}
    {levels : List Bytes} {w : Way} (h : Leads m n levels w) :
    ∃ k, w.pattern = n.data :: k := by
  cases h with
  | here => exact ⟨[], rfl⟩
  | further => exact ⟨_, rfl⟩

/-- **The answer at the end of a way** is the index stored for its pattern. -/
theorem Leads.answer_eq {u : Uninit} {n : RouteNode} {R : List Route}
    {m : HttpMethod} {levels : List Bytes} {w : Way} (h : Leads m n levels w)
    (hindexes : Indexes u n R) {k : List RouteNodeData}
    (hk : w.pattern = n.data :: k) : w.answer m = storedIndex u R m k := by
  induction h generalizing u R k with
  | here =>
    cases hindexes with
    | node hindex _ =>
      cases hk
      exact hindex m
  | @further n _ c w _ _ _ hc hleads ih =>
    cases hindexes with
    | node _ hchildren =>
      obtain ⟨k', hk'⟩ := hleads.exists_pattern
      have hcons : w.pattern = k := (List.cons.inj hk).2
      rw [← hcons, hk', ← storedIndex_below]
      exact ih (hchildren _ hc) hk'

end RouteNode
