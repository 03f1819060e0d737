import Mathlib.Data.List.Flatten
import Mathlib.Data.List.Nodup
import Mathlib.Logic.Relation

/-!
# Walks through a graph, depth first

A walk that does not remember where it has been visits a node again for each way to it, and does not
end if there is a way round. Where no node is behind two, it visits none twice. `next n` are the
nodes behind `n`, in the order of the visits.
-/

namespace Refk.Lib

variable {ν : Type}

/-- The nodes that a walk from a node visits, as far as `fuel` levels down. -/
def treeWalk (next : ν → List ν) : Nat → ν → Option (List ν)
  | 0, _ => none
  | fuel + 1, n => do
    let below ← (next n).mapM (treeWalk next fuel)
    return n :: below.flatten

/-- `m` is right behind `n`. -/
def Behind (next : ν → List ν) (n m : ν) : Prop := m ∈ next n

/-- `m` is somewhere behind `n`, or is `n`. -/
def Reaches (next : ν → List ν) : ν → ν → Prop := Relation.ReflTransGen (Behind next)

section
variable {next : ν → List ν} {n m : ν} {fuel fuel' : Nat} {out : List ν}

theorem exists_of_mem_left {α β : Type} {R : α → β → Prop} {l : List α} {out : List β} {a : α}
    (h : List.Forall₂ R l out) (ha : a ∈ l) : ∃ b ∈ out, R a b := by
  induction h with
  | nil => cases ha
  | cons hR _ ih =>
    cases ha with
    | head => exact ⟨_, List.mem_cons_self, hR⟩
    | tail _ ha =>
      obtain ⟨b, hb, hR'⟩ := ih ha
      exact ⟨b, List.mem_cons_of_mem _ hb, hR'⟩

theorem exists_of_mem_right {α β : Type} {R : α → β → Prop} {l : List α} {out : List β} {b : β}
    (h : List.Forall₂ R l out) (hb : b ∈ out) : ∃ a ∈ l, R a b := by
  obtain ⟨a, ha, hR⟩ := exists_of_mem_left h.flip hb
  exact ⟨a, ha, hR⟩

theorem mapM_eq_some_iff {α β : Type} {f : α → Option β} (l : List α) : ∀ {out : List β},
    l.mapM f = some out ↔ List.Forall₂ (fun a b => f a = some b) l out := by
  induction l with
  | nil =>
    intro out
    rw [List.mapM_nil, Option.pure_def, Option.some_inj, List.forall₂_nil_left_iff]
    exact eq_comm
  | cons a l ih =>
    intro out
    rw [List.mapM_cons, Option.bind_eq_bind, Option.bind_eq_some_iff, List.forall₂_cons_left_iff]
    constructor
    · intro ⟨b, hb, h⟩
      obtain ⟨bs, hbs, h⟩ := Option.bind_eq_some_iff.mp h
      exact ⟨b, bs, hb, ih.mp hbs, (Option.some.inj h).symm⟩
    · intro ⟨b, bs, hb, hbs, heq⟩
      refine ⟨b, hb, ?_⟩
      rw [ih.mpr hbs, heq]
      rfl

theorem treeWalk_succ_iff : treeWalk next (fuel + 1) n = some out ↔ ∃ below,
    List.Forall₂ (fun m b => treeWalk next fuel m = some b) (next n) below ∧
      out = n :: below.flatten := by
  rw [treeWalk, Option.bind_eq_bind, Option.bind_eq_some_iff]
  constructor
  · intro ⟨below, hbelow, h⟩
    exact ⟨below, (mapM_eq_some_iff _).mp hbelow, (Option.some.inj h).symm⟩
  · intro ⟨below, hbelow, h⟩
    exact ⟨below, (mapM_eq_some_iff _).mpr hbelow, congrArg some h.symm⟩

/-- More fuel changes nothing. -/
theorem treeWalk_mono (h : treeWalk next fuel n = some out) (hle : fuel ≤ fuel') :
    treeWalk next fuel' n = some out := by
  induction fuel generalizing n out fuel' with
  | zero => cases h
  | succ fuel ih =>
    obtain ⟨fuel', rfl⟩ : ∃ f, fuel' = f + 1 := ⟨fuel' - 1, by omega⟩
    obtain ⟨below, hbelow, rfl⟩ := treeWalk_succ_iff.mp h
    exact treeWalk_succ_iff.mpr ⟨below, hbelow.imp fun _ _ hm => ih hm (by omega), rfl⟩

theorem exists_treeWalks {ns : List ν} (h : ∀ n ∈ ns, ∃ fuel out, treeWalk next fuel n = some out) :
    ∃ fuel outs, List.Forall₂ (fun n out => treeWalk next fuel n = some out) ns outs := by
  induction ns with
  | nil => exact ⟨0, [], .nil⟩
  | cons n ns ih =>
    obtain ⟨fuel, out, hn⟩ := h n List.mem_cons_self
    obtain ⟨fuel', outs, hns⟩ := ih fun m hm => h m (List.mem_cons_of_mem _ hm)
    exact ⟨max fuel fuel', out :: outs, .cons (treeWalk_mono hn (Nat.le_max_left _ _))
      (hns.imp fun _ _ hm => treeWalk_mono hm (Nat.le_max_right _ _))⟩

/-- **A walk ends exactly if there is no way that goes on forever.** -/
theorem exists_treeWalk_iff :
    (∃ fuel out, treeWalk next fuel n = some out) ↔ Acc (fun m n => Behind next n m) n := by
  constructor
  · intro ⟨fuel, out, h⟩
    induction fuel generalizing n out with
    | zero => cases h
    | succ fuel ih =>
      obtain ⟨below, hbelow, -⟩ := treeWalk_succ_iff.mp h
      refine ⟨n, fun m hm => ?_⟩
      obtain ⟨out', -, hm'⟩ := exists_of_mem_left hbelow hm
      exact ih out' hm'
  · intro h
    induction h with
    | intro n _ ih =>
      obtain ⟨fuel, below, hbelow⟩ := exists_treeWalks ih
      exact ⟨fuel + 1, _, treeWalk_succ_iff.mpr ⟨below, hbelow, rfl⟩⟩

/-- **It visits what can be reached.** -/
theorem mem_treeWalk_iff (h : treeWalk next fuel n = some out) : m ∈ out ↔ Reaches next n m := by
  induction fuel generalizing n out with
  | zero => cases h
  | succ fuel ih =>
    obtain ⟨below, hbelow, rfl⟩ := treeWalk_succ_iff.mp h
    rw [List.mem_cons, List.mem_flatten]
    constructor
    · intro hm
      cases hm with
      | inl heq =>
        rw [heq]
        exact .refl
      | inr hm =>
        obtain ⟨out', hout', hm⟩ := hm
        obtain ⟨n', hn', hwalk⟩ := exists_of_mem_right hbelow hout'
        exact .head hn' ((ih hwalk).mp hm)
    · intro hm
      cases Relation.ReflTransGen.cases_head hm with
      | inl heq => exact .inl heq.symm
      | inr hm =>
        obtain ⟨n', hn', hm⟩ := hm
        obtain ⟨out', hout', hwalk⟩ := exists_of_mem_left hbelow hn'
        exact .inr ⟨out', hout', (ih hwalk).mpr hm⟩

theorem acc_irrefl (h : Acc (fun m n => Behind next n m) n) :
    ¬ Relation.TransGen (Behind next) n n := by
  induction h with
  | intro n _ ih =>
    intro hn
    obtain ⟨m, hm, hmn⟩ := Relation.TransGen.head'_iff.mp hn
    exact ih m hm (Relation.TransGen.tail' hmn hm)

/-- Walks from different nodes visit nothing twice where they are apart. -/
theorem nodup_walks {ns : List ν} {outs : List (List ν)} (hns : ns.Nodup)
    (hwalks : List.Forall₂ (fun n out => treeWalk next fuel n = some out) ns outs)
    (heach : ∀ n ∈ ns, ∀ out, treeWalk next fuel n = some out → out.Nodup)
    (hapart : ∀ a ∈ ns, ∀ b ∈ ns, ∀ x, Reaches next a x → Reaches next b x → a = b) :
    outs.flatten.Nodup := by
  induction hwalks with
  | nil => exact List.nodup_nil
  | @cons n out ns outs hn hrest ih =>
    obtain ⟨hnotin, hns⟩ := List.nodup_cons.mp hns
    rw [List.flatten_cons, List.nodup_append]
    refine ⟨heach n List.mem_cons_self out hn, ih hns
      (fun m hm => heach m (List.mem_cons_of_mem _ hm))
      fun a ha b hb => hapart a (List.mem_cons_of_mem _ ha) b (List.mem_cons_of_mem _ hb), ?_⟩
    intro x hx y hy heq
    subst heq
    obtain ⟨out', hout', hx'⟩ := List.mem_flatten.mp hy
    obtain ⟨m, hm, hwalk⟩ := exists_of_mem_right hrest hout'
    apply hnotin
    rw [hapart n List.mem_cons_self m (List.mem_cons_of_mem _ hm) x ((mem_treeWalk_iff hn).mp hx)
      ((mem_treeWalk_iff hwalk).mp hx')]
    exact hm

/-- The visits of walks from several nodes, one after the other. -/
def walkAll (g : ν → Option (List ν)) (ns : List ν) : Option (List ν) :=
  (ns.mapM g).map List.flatten

theorem walkAll_nil {g : ν → Option (List ν)} : walkAll g [] = some [] := rfl

theorem walkAll_cons {g : ν → Option (List ν)} (n : ν) (ns : List ν) :
    walkAll g (n :: ns) = (g n).bind fun out => (walkAll g ns).map (out ++ ·) := by
  rw [walkAll, walkAll, List.mapM_cons]
  cases hn : g n with
  | none => rfl
  | some out =>
    cases hns : ns.mapM g with
    | none => rfl
    | some outs => rfl

theorem walkAll_append {g : ν → Option (List ν)} (ns ns' : List ν) :
    walkAll g (ns ++ ns') = (walkAll g ns).bind fun out => (walkAll g ns').map (out ++ ·) := by
  induction ns with
  | nil =>
    rw [List.nil_append, walkAll_nil, Option.bind_some]
    cases walkAll g ns' with
    | none => rfl
    | some out => rfl
  | cons n ns ih =>
    rw [List.cons_append, walkAll_cons, walkAll_cons, ih]
    cases g n with
    | none => rfl
    | some out =>
      cases walkAll g ns with
      | none => rfl
      | some out' =>
        cases walkAll g ns' with
        | none => rfl
        | some out'' => exact congrArg some (List.append_assoc _ _ _).symm

theorem treeWalk_succ : treeWalk next (fuel + 1) n =
    (walkAll (treeWalk next fuel) (next n)).map (n :: ·) := by
  rw [treeWalk, walkAll, Option.map_map]
  cases (next n).mapM (treeWalk next fuel) with
  | none => rfl
  | some below => rfl

theorem walkAll_eq_some_iff {ns : List ν} : walkAll (treeWalk next fuel) ns = some out ↔
    ∃ outs, List.Forall₂ (fun n out => treeWalk next fuel n = some out) ns outs ∧
      out = outs.flatten := by
  rw [walkAll, Option.map_eq_some_iff]
  constructor
  · intro ⟨outs, houts, h⟩
    exact ⟨outs, (mapM_eq_some_iff _).mp houts, h.symm⟩
  · intro ⟨outs, houts, h⟩
    exact ⟨outs, (mapM_eq_some_iff _).mpr houts, h.symm⟩

theorem mem_walkAll_iff {ns : List ν} (h : walkAll (treeWalk next fuel) ns = some out) :
    m ∈ out ↔ ∃ n ∈ ns, Reaches next n m := by
  obtain ⟨outs, houts, rfl⟩ := walkAll_eq_some_iff.mp h
  rw [List.mem_flatten]
  constructor
  · intro ⟨out', hout', hm⟩
    obtain ⟨n, hn, hwalk⟩ := exists_of_mem_right houts hout'
    exact ⟨n, hn, (mem_treeWalk_iff hwalk).mp hm⟩
  · intro ⟨n, hn, hm⟩
    obtain ⟨out', hout', hwalk⟩ := exists_of_mem_left houts hn
    exact ⟨out', hout', (mem_treeWalk_iff hwalk).mpr hm⟩

theorem exists_walkAll_iff {ns : List ν} :
    (∃ fuel out, walkAll (treeWalk next fuel) ns = some out) ↔
      ∀ n ∈ ns, Acc (fun m n => Behind next n m) n := by
  constructor
  · intro ⟨fuel, out, h⟩ n hn
    obtain ⟨outs, houts, -⟩ := walkAll_eq_some_iff.mp h
    obtain ⟨out', -, hwalk⟩ := exists_of_mem_left houts hn
    exact exists_treeWalk_iff.mp ⟨fuel, out', hwalk⟩
  · intro h
    obtain ⟨fuel, outs, houts⟩ := exists_treeWalks fun n hn => exists_treeWalk_iff.mpr (h n hn)
    exact ⟨fuel, _, walkAll_eq_some_iff.mpr ⟨outs, houts, rfl⟩⟩

/-- No node is behind two. -/
def OneWay (next : ν → List ν) : Prop := ∀ n n' m, Behind next n m → Behind next n' m → n = n'

/-- Where there is one way to a node at most, two nodes that lead to it are on it. -/
theorem OneWay.total (h : OneWay next) {a b x : ν} (ha : Reaches next a x) (hb : Reaches next b x) :
    Reaches next a b ∨ Reaches next b a := by
  induction ha with
  | refl => exact .inr hb
  | @tail y x hay hyx ih =>
    cases hb.cases_tail with
    | inl heq =>
      subst heq
      exact .inl (hay.tail hyx)
    | inr hb =>
      obtain ⟨z, hbz, hzx⟩ := hb
      obtain rfl := h _ _ _ hyx hzx
      exact ih hbz

/-- Siblings lead to different nodes, unless there is a way round. -/
theorem OneWay.apart (h : OneWay next) (hacc : Acc (fun m n => Behind next n m) n) {a b x : ν}
    (ha : Behind next n a) (hb : Behind next n b) (hax : Reaches next a x)
    (hbx : Reaches next b x) : a = b := by
  have hround : ∀ a b, Behind next n a → Behind next n b → Reaches next a b → a = b := by
    intro a b ha hb hab
    cases hab.cases_tail with
    | inl heq => exact heq.symm
    | inr hab =>
      obtain ⟨y, hay, hyb⟩ := hab
      obtain rfl := h _ _ _ hyb hb
      exact absurd (Relation.TransGen.head' ha hay) (acc_irrefl hacc)
  cases h.total hax hbx with
  | inl hab => exact hround a b ha hb hab
  | inr hba => exact (hround b a hb ha hba).symm

/-- **Then it visits nothing twice.** -/
theorem nodup_treeWalk (h : OneWay next) (hnext : ∀ n, (next n).Nodup)
    (hwalk : treeWalk next fuel n = some out) : out.Nodup := by
  induction fuel generalizing n out with
  | zero => cases hwalk
  | succ fuel ih =>
    have hacc := exists_treeWalk_iff.mp ⟨_, _, hwalk⟩
    obtain ⟨below, hbelow, rfl⟩ := treeWalk_succ_iff.mp hwalk
    refine List.nodup_cons.mpr ⟨?_, ?_⟩
    · intro hn
      obtain ⟨out', hout', hn⟩ := List.mem_flatten.mp hn
      obtain ⟨m, hm, hwalk'⟩ := exists_of_mem_right hbelow hout'
      exact absurd (Relation.TransGen.head' hm ((mem_treeWalk_iff hwalk').mp hn)) (acc_irrefl hacc)
    · exact nodup_walks (hnext n) hbelow (fun m _ out' hm => ih hm)
        fun a ha b hb x hax hbx => h.apart hacc ha hb hax hbx

end

end Refk.Lib
