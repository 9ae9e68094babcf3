import Mathlib.Data.List.Nodup
import Mathlib.Data.List.Perm.Subperm
import Mathlib.Logic.Relation

/-!
# Depth-first search

A search that visits what a node leads to before the node itself: it finds a cycle, or it leaves an
order in which everything comes after what it leads to.
-/

namespace DepthFirst

open Relation

variable {α β : Type*}

/-- The path to where the search is, the nodes it has left, and what it has put out for them. -/
structure Search (α β : Type*) where
  visiting : List α
  visited : List α
  result : List β

/-- `exhausted` where the search would go deeper than it may. -/
inductive Fault
  | cycle
  | exhausted
  deriving DecidableEq

section

variable [DecidableEq α] (next : α → List α) (emit : α → List β)

def visit : Nat → α → Search α β → Except Fault (Search α β)
  | 0, _, _ => .error .exhausted
  | depth + 1, node, s =>
    if node ∈ s.visiting then .error .cycle
    else if node ∈ s.visited then .ok s
    else do
      let s ← (next node).foldlM (fun s child => visit depth child s)
        { s with visiting := node :: s.visiting }
      .ok ⟨s.visiting.erase node, s.visited ++ [node], s.result ++ emit node⟩

def search (depth : Nat) (roots : List α) : Except Fault (Search α β) :=
  roots.foldlM (fun s root => visit next emit depth root s) ⟨[], [], []⟩

end

/-! ## Orders -/

variable {next : α → List α}

/-- A node leads to another. -/
def Edge (next : α → List α) (a b : α) : Prop := b ∈ next a

/-- Everything comes after what it leads to. -/
def Ordered (next : α → List α) (nodes : List α) : Prop :=
  ∀ before a after, nodes = before ++ a :: after → ∀ b ∈ next a, b ∈ before

theorem Ordered.nil : Ordered next [] := by
  intro before a after h
  cases before <;> cases h

theorem Ordered.append {nodes : List α} {a : α} (h : Ordered next nodes)
    (ha : ∀ b ∈ next a, b ∈ nodes) : Ordered next (nodes ++ [a]) := by
  intro before c after heq b hb
  cases List.eq_nil_or_concat after with
  | inl hnil =>
    rw [hnil] at heq
    have hsame := List.append_inj' heq rfl
    have hac : a = c := (List.cons.inj hsame.2).1
    rw [← hsame.1]
    exact ha b (hac ▸ hb)
  | inr hconcat =>
    have ⟨after', d, hafter⟩ := hconcat
    rw [hafter, List.concat_eq_append, ← List.cons_append, ← List.append_assoc] at heq
    exact h before c after' (List.append_inj' heq rfl).1 b hb

/-- A node of an order comes after all that it leads to, over any number of steps. -/
theorem Ordered.before_of_transGen {nodes : List α} (h : Ordered next nodes) {a b : α}
    (hab : TransGen (Edge next) a b) (before after : List α)
    (ha : nodes = before ++ a :: after) : b ∈ before := by
  induction hab with
  | single hedge => exact h before a after ha _ hedge
  | tail _ hedge ih =>
    have ⟨u, v, hbefore⟩ := List.append_of_mem ih
    have hb := h u _ (v ++ a :: after) (by rw [ha, hbefore, List.append_assoc]; rfl) _ hedge
    rw [hbefore]
    exact List.mem_append_left _ hb

/-- There is no cycle among what is ordered. -/
theorem Ordered.acyclic {nodes : List α} (h : Ordered next nodes) (hnodup : nodes.Nodup) {a : α}
    (ha : a ∈ nodes) : ¬TransGen (Edge next) a a := by
  intro hcycle
  have ⟨before, after, hnodes⟩ := List.append_of_mem ha
  have hin := h.before_of_transGen hcycle before after hnodes
  rw [hnodes] at hnodup
  exact (List.nodup_append.mp hnodup).2.2 a hin a List.mem_cons_self rfl

/-! ## The search -/

/-- What holds of a search at every moment. -/
structure Good (next : α → List α) (emit : α → List β) (nodes : List α) (s : Search α β) :
    Prop where
  ordered : Ordered next s.visited
  result : s.result = s.visited.flatMap emit
  nodup : s.visited.Nodup
  path : s.visiting.Nodup
  apart : ∀ a ∈ s.visiting, a ∉ s.visited
  visited : ∀ a ∈ s.visited, a ∈ nodes
  visiting : ∀ a ∈ s.visiting, a ∈ nodes

/-- What a visit of some nodes does: it finds a cycle, or these nodes are left behind. -/
def Visits (next : α → List α) (emit : α → List β) (nodes : List α) (s : Search α β)
    (targets : List α) : Except Fault (Search α β) → Prop
  | .ok t => Good next emit nodes t ∧ t.visiting = s.visiting ∧ s.visited ⊆ t.visited ∧
      ∀ a ∈ targets, a ∈ t.visited
  | .error .cycle => ∃ a ∈ nodes, TransGen (Edge next) a a
  | .error .exhausted => False

/-- Everything on the path leads to the node. -/
def Leads (next : α → List α) (s : Search α β) (a : α) : Prop :=
  ∀ t ∈ s.visiting, TransGen (Edge next) t a

variable [DecidableEq α] {nodes : List α} {s : Search α β} (emit : α → List β)

/-- Children are visited one after the other. -/
theorem visits_foldlM (depth : Nat) (children : List α)
    (hvisit : ∀ child ∈ children, ∀ t : Search α β, Good next emit nodes t →
      t.visiting = s.visiting → Visits next emit nodes t [child] (visit next emit depth child t))
    {t : Search α β} (ht : Good next emit nodes t) (hpath : t.visiting = s.visiting) :
    Visits next emit nodes t children
      (children.foldlM (fun s child => visit next emit depth child s) t) := by
  induction children generalizing t with
  | nil => exact ⟨ht, rfl, List.Subset.refl _, fun a h => absurd h List.not_mem_nil⟩
  | cons child children ih =>
    have hfirst := hvisit child List.mem_cons_self t ht hpath
    rw [List.foldlM_cons]
    cases hresult : visit next emit depth child t with
    | error fault =>
      rw [hresult] at hfirst
      cases fault with
      | cycle => exact hfirst
      | exhausted => exact hfirst.elim
    | ok u =>
      rw [hresult] at hfirst
      have ⟨hu, hpathu, hgrow, hchild⟩ := hfirst
      have hrest := ih (fun c hc => hvisit c (List.mem_cons_of_mem child hc)) hu
        (hpathu.trans hpath)
      show Visits next emit nodes t (child :: children)
        (children.foldlM (fun s child => visit next emit depth child s) u)
      cases hlast : children.foldlM (fun s child => visit next emit depth child s) u with
      | error fault =>
        rw [hlast] at hrest
        cases fault with
        | cycle => exact hrest
        | exhausted => exact hrest.elim
      | ok v =>
        rw [hlast] at hrest
        have ⟨hv, hpathv, hgrow', hchildren⟩ := hrest
        refine ⟨hv, hpathv.trans hpathu, fun a ha => hgrow' (hgrow ha), fun a ha => ?_⟩
        cases List.mem_cons.mp ha with
        | inl heq => exact hgrow' (hchild a (heq ▸ List.mem_cons_self))
        | inr hin => exact hchildren a hin

/-- The path is no longer than there are nodes, so a search that may go deeper than that does not
end early. -/
theorem visits_visit (depth : Nat) (hclosed : ∀ a ∈ nodes, ∀ b ∈ next a, b ∈ nodes) {node : α}
    (hs : Good next emit nodes s) (hnode : node ∈ nodes) (hleads : Leads next s node)
    (hdepth : nodes.length < depth + s.visiting.length) :
    Visits next emit nodes s [node] (visit next emit depth node s) := by
  induction depth generalizing s node with
  | zero =>
    have hle := (hs.path.subperm hs.visiting).length_le
    omega
  | succ depth ih =>
    rw [visit]
    split
    · rename_i hcycle
      exact ⟨node, hnode, hleads node hcycle⟩
    · rename_i hfresh
      split
      · rename_i hdone
        exact ⟨hs, rfl, List.Subset.refl _, fun a ha => List.mem_singleton.mp ha ▸ hdone⟩
      · rename_i hnew
        let inner : Search α β := { s with visiting := node :: s.visiting }
        have hinner : Good next emit nodes inner := by
          refine ⟨hs.ordered, hs.result, hs.nodup, List.nodup_cons.mpr ⟨hfresh, hs.path⟩, ?_,
            hs.visited, ?_⟩
          · exact List.forall_mem_cons.mpr ⟨hnew, hs.apart⟩
          · exact List.forall_mem_cons.mpr ⟨hnode, hs.visiting⟩
        have hchildren := visits_foldlM (s := inner) emit depth (next node)
          (fun child hchild t ht hpath => by
            refine ih ht (hclosed node hnode child hchild) (fun a ha => ?_) ?_
            · -- what is on the path leads to the node, and the node to its child
              rw [hpath] at ha
              cases List.mem_cons.mp ha with
              | inl heq => exact heq ▸ .single hchild
              | inr hin => exact (hleads a hin).tail hchild
            · rw [hpath]
              show nodes.length < depth + (s.visiting.length + 1)
              omega) hinner rfl
        show Visits next emit nodes s [node]
          ((next node).foldlM (fun s child => visit next emit depth child s) inner >>= fun s =>
            .ok ⟨s.visiting.erase node, s.visited ++ [node], s.result ++ emit node⟩)
        cases hlast : (next node).foldlM (fun s child => visit next emit depth child s) inner with
        | error fault =>
          rw [hlast] at hchildren
          cases fault with
          | cycle => exact hchildren
          | exhausted => exact hchildren.elim
        | ok t =>
          rw [hlast] at hchildren
          have ⟨ht, hpath, hgrow, hall⟩ := hchildren
          have hnot : node ∉ t.visited := ht.apart node (by rw [hpath]; exact List.mem_cons_self)
          have herase : t.visiting.erase node = s.visiting := by
            rw [hpath]
            exact List.erase_cons_head (a := node) (l := s.visiting)
          refine ⟨⟨ht.ordered.append hall, ?_, ?_, ?_, ?_, ?_, ?_⟩, herase, ?_, ?_⟩
          · show t.result ++ emit node = (t.visited ++ [node]).flatMap emit
            rw [List.flatMap_append, ht.result, List.flatMap_singleton]
          · exact List.nodup_append.mpr ⟨ht.nodup, List.nodup_singleton node,
              fun a ha b hb heq => hnot (List.mem_singleton.mp hb ▸ heq ▸ ha)⟩
          · show (t.visiting.erase node).Nodup
            rw [herase]
            exact hs.path
          · intro a ha hin
            rw [herase] at ha
            cases List.mem_append.mp hin with
            | inl hold => exact ht.apart a (by rw [hpath]; exact List.mem_cons_of_mem node ha) hold
            | inr hlast => exact hfresh (List.mem_singleton.mp hlast ▸ ha)
          · intro a ha
            cases List.mem_append.mp ha with
            | inl hold => exact ht.visited a hold
            | inr hlast => exact List.mem_singleton.mp hlast ▸ hnode
          · intro a ha
            rw [herase] at ha
            exact hs.visiting a ha
          · exact fun a ha => List.mem_append_left _ (hgrow ha)
          · exact fun a ha => List.mem_append_right _ ha

/-- A search from all nodes finds a cycle exactly if there is one, and else orders the nodes. -/
theorem search_spec {depth : Nat} (hclosed : ∀ a ∈ nodes, ∀ b ∈ next a, b ∈ nodes)
    (hnodup : nodes.Nodup) (hdepth : nodes.length < depth) :
    ((∃ a ∈ nodes, TransGen (Edge next) a a) ∧
      search next emit depth nodes = .error Fault.cycle) ∨
    ((¬∃ a ∈ nodes, TransGen (Edge next) a a) ∧ ∃ s, search next emit depth nodes = .ok s ∧
      s.visited.Perm nodes ∧ Ordered next s.visited ∧ s.result = s.visited.flatMap emit) := by
  have hstart : Good next emit nodes (⟨[], [], []⟩ : Search α β) := by
    refine ⟨Ordered.nil, rfl, List.nodup_nil, List.nodup_nil, ?_, ?_, ?_⟩ <;>
      exact fun a h => absurd h List.not_mem_nil
  have hall := visits_foldlM (s := ⟨[], [], []⟩) emit depth nodes
    (fun child hchild t ht hpath => by
      refine visits_visit emit depth hclosed ht hchild (fun a ha => ?_) ?_
      · rw [hpath] at ha
        exact absurd ha List.not_mem_nil
      · rw [hpath]
        exact hdepth) hstart rfl
  rw [search]
  cases hresult : nodes.foldlM (fun s root => visit next emit depth root s) ⟨[], [], []⟩ with
  | error fault =>
    rw [hresult] at hall
    cases fault with
    | cycle => exact Or.inl ⟨hall, rfl⟩
    | exhausted => exact hall.elim
  | ok s =>
    rw [hresult] at hall
    have ⟨hs, _, _, hvisited⟩ := hall
    refine Or.inr ⟨fun hcycle => ?_, s, rfl, ?_, hs.ordered, hs.result⟩
    · have ⟨a, ha, htrans⟩ := hcycle
      exact hs.ordered.acyclic hs.nodup (hvisited a ha) htrans
    · exact (List.perm_ext_iff_of_nodup hs.nodup hnodup).mpr fun a =>
        ⟨hs.visited a, hvisited a⟩

end DepthFirst
