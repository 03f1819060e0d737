import Refk.Klib.Create
import Refk.Scheduler.Mman

/-!
# What the mapping operations do to translations

Every operation is a loop over the pages of a range of one root, and every turn of it is a
creation of intermediate tables followed by at most one write to a level-3 entry. `Mapped`
is what such a turn needs of the tables and of the free list, and what it re-establishes;
`Klib/Paging.lean` has what the two kinds of write do to translations.

"Enough pages" is stated against what the call takes: `taken` counts the pages taken so far,
and a call that ends with no more taken than the list held never ran dry on the way.
-/

namespace Refk

open Lib

/-! ## Bookkeeping -/

@[simp] theorem incrementPage_kmem (s : Mman) (page : Word) :
    (incrementPage s page).kmem = s.kmem := rfl

@[simp] theorem incrementPage_phys (s : Mman) (page : Word) :
    (incrementPage s page).phys = s.phys := rfl

theorem pageCount_incrementPage {s : Mman} {p q : Word} :
    (incrementPage s p).pageCount q = s.pageCount q + if p = q then 1 else 0 := by
  simp only [incrementPage, Mman.pageCount, AvlMap.search_insert_ptr]
  by_cases hpq : p = q
  · simp [hpq]
  · simp [hpq]

@[simp] theorem newTable_kmem (s : Mman) (pa : Word) :
    (s.newTable pa).kmem = (s.kmem.newTable pa).1 := rfl

@[simp] theorem write_phys (s : Mman) (address value : Word) :
    (s.write address value).phys = Function.update s.phys address value := rfl

@[simp] theorem write_taken (s : Mman) (address value : Word) :
    (s.write address value).kmem.taken = s.kmem.taken := rfl

@[simp] theorem getpage_taken (s : Mman) : s.getpage.1.kmem.taken = s.kmem.taken + 1 := rfl

@[simp] theorem getpage_phys (s : Mman) : s.getpage.1.phys = s.phys := rfl

/-- Tables that are there are not created. -/
theorem mmanPagingAddrCreate_of_table {s : Mman} {root va t : Word} {level : Nat}
    (h : tableAt s.phys root va level = some t) :
    mmanPagingAddrCreate s root va level = (s, cell t va level) := by
  simp only [mmanPagingAddrCreate, pagingAddrCreate, kmemPagingAddr_of_table h]

theorem physicalPage_of_table {s : Mman} {root va t : Word} (paddress : Word)
    (h : tableAt s.phys root va 3 = some t) :
    physicalPage root s va paddress = s.write (cell t va 3) (paddress ||| kmemMapData) := by
  simp only [physicalPage, mmanPagingAddrCreate_of_table h]

theorem create_taken (s : Mman) (root vaddr : Word) (level : Nat) :
    s.kmem.taken ≤ (mmanPagingAddrCreate s root vaddr level).1.kmem.taken :=
  pagingAddrCreate_keeps (fun s' : Mman => s.kmem.taken ≤ s'.kmem.taken) le_rfl
    fun s' _ h => h.trans (Nat.le_succ s'.kmem.taken)

theorem anonymousPage_taken (root : Word) (s : Mman) (va : Word) :
    s.kmem.taken ≤ (anonymousPage root s va).kmem.taken :=
  (create_taken s root va 3).trans (Nat.le_succ _)

theorem physicalPage_taken (root : Word) (s : Mman) (va paddress : Word) :
    s.kmem.taken ≤ (physicalPage root s va paddress).kmem.taken := create_taken s root va 3

theorem mirrorPage_taken (root sroot : Word) (s : Mman) (va sva : Word) :
    s.kmem.taken ≤ (mirrorPage root sroot s va sva).kmem.taken :=
  (create_taken s root va 3).trans (create_taken _ sroot sva 3)

/-- **The page loop's rule**, with the same provision as that of the creation loop. -/
theorem forPages_rule {σ : Type} (size : Word) (body : σ → Word → σ) (s : σ)
    (Inv : Nat → σ → Prop) (Good : σ → Prop) (h₀ : Inv 0 s)
    (hgood : ∀ s off, Good (body s off) → Good s)
    (hbody : ∀ i s, i < size.toNat / 0x1000 → Inv i s →
      Good (body s (BitVec.ofNat 64 i * 0x1000)) →
      Inv (i + 1) (body s (BitVec.ofNat 64 i * 0x1000)))
    (hfinal : Good (forPages size body s)) : Inv (size.toNat / 0x1000) (forPages size body s) := by
  have hloop : ∀ n ≤ size.toNat / 0x1000,
      Good ((List.range n).foldl (fun s i => body s (BitVec.ofNat 64 i * 0x1000)) s) →
      Inv n ((List.range n).foldl (fun s i => body s (BitVec.ofNat 64 i * 0x1000)) s) := by
    intro n hn
    induction n with
    | zero => exact fun _ => h₀
    | succ n ih =>
      rw [List.range_succ, List.foldl_append]
      exact fun h => hbody n _ (by omega) (ih (by omega) (hgood _ _ h)) h
  exact hloop _ le_rfl hfinal

/-! ## Entries -/

/-- `va` translates through a page entry with this frame and these flags. -/
def TranslatesTo (m : Phys) (root va frame flags : Word) : Prop :=
  ∃ entry, mapping m root va = some entry ∧ entry &&& kmemFrameMask = frame ∧
    entry &&& kmemFlagMask = flags

theorem present_data (p : Word) (hp : IsFrame p) : Present (p ||| kmemMapData) := by
  rw [Present, hp.aligned.or_and (by decide)]
  decide

theorem data_frame {p : Word} (hp : IsFrame p) : (p ||| kmemMapData) &&& kmemFrameMask = p :=
  or_and_mask hp (by decide)

theorem data_flags {p : Word} (hp : IsFrame p) :
    (p ||| kmemMapData) &&& kmemFlagMask = kmemMapData := by
  rw [BitVec.and_or_distrib_right, ← hp, BitVec.and_assoc,
    show kmemFrameMask &&& kmemFlagMask = 0 by decide]
  simp [kmemMapData, kmemFlagMask]

/-! ## The condition on the tables and the free list -/

/-- What an operation on the addresses `V` of `root` needs of the tables: those its walks use
    are used by no other walk from the roots `R`, and no walk meets a large page. -/
structure Tables (m : Phys) (R : Set Word) (root : Word) (V : Set Word) : Prop where
  roots : ∀ r ∈ R, PageAligned r
  root_mem : root ∈ R
  priv : ∀ va ∈ V, ∀ d, Private m R root va d
  small : ∀ va ∈ V, ∀ d < 3, ∀ t, tableAt m root va d = some t →
    Present (m (cell t va d)) → ¬ IsPage d (m (cell t va d))

/-- The free list: distinct frames, none of them a table. -/
structure Free (k : Kmem) (R : Set Word) (L : List Word) : Prop where
  pages : FreePages k L
  frames : ∀ p ∈ L, IsFrame p
  nodup : L.Nodup
  unused : ∀ p ∈ L, ∀ r ∈ R, ∀ va d, tableAt k.phys r va d ≠ some p

/-- `m'` still has the tables of `m`, where they were, and translates everything alike. -/
structure Grown (R : Set Word) (m m' : Phys) : Prop where
  tables : ∀ r ∈ R, ∀ va d t, tableAt m r va d = some t → tableAt m' r va d = some t
  translate : ∀ r ∈ R, ∀ va, translate m' r va = translate m r va

theorem Grown.refl (R : Set Word) (m : Phys) : Grown R m m :=
  ⟨fun _ _ _ _ _ h => h, fun _ _ _ => rfl⟩

theorem Grown.trans {R : Set Word} {m₁ m₂ m₃ : Phys} (h : Grown R m₁ m₂) (h' : Grown R m₂ m₃) :
    Grown R m₁ m₃ :=
  ⟨fun r hr va d t ht => h'.tables r hr va d t (h.tables r hr va d t ht),
    fun r hr va => (h'.translate r hr va).trans (h.translate r hr va)⟩

section
variable {k k' : Kmem} {m m' : Phys} {R : Set Word} {root va t p : Word} {V : Set Word}
  {L : List Word} {d : Nat}

theorem Tables.kmemPagingAddr (h : Tables m R root V) (hva : va ∈ V) (hd : d ≤ 3) :
    kmemPagingAddr m root va d = (tableAt m root va d).map fun t => cell t va d :=
  kmemPagingAddr_eq fun k hk => h.small va hva k (by omega)

/-- What linking the first free page below an absent entry of `root` does to all the walks. -/
theorem link_linked (htab : Tables k.phys R root V) (hfree : Free k R (p :: L)) (hva : va ∈ V)
    (hd : d < 3) (ht : tableAt k.phys root va d = some t)
    (habs : ¬ Present (k.phys (cell t va d))) :
    Linked k.phys (k.newTable (cell t va d)).1.phys (cell t va d) p ∧
    ∀ r ∈ R, ∀ va' d', tableAt (k.newTable (cell t va d)).1.phys r va' d' =
      if r = root ∧ d' = d + 1 ∧ SamePrefix (d + 1) va' va then some p
      else tableAt k.phys r va' d' := by
  have hp : IsFrame p := hfree.frames p (by simp)
  have hnew : ∀ r ∈ R, ∀ va d, tableAt k.phys r va d ≠ some p := hfree.unused p (by simp)
  have htal := tableAt_aligned (htab.roots root htab.root_mem) ht
  have htp : t ≠ p := fun h => hnew root htab.root_mem va d (h ▸ ht)
  have hm : Linked k.phys _ (cell t va d) p := newTable_linked hfree.pages hp.aligned htal htp
  exact ⟨hm, fun r hr va' d' => tableAt_link htab.roots htab.root_mem hp.aligned hnew hd ht habs
    (htab.priv va hva d) hm hr va' d'⟩

/-- A table of the new memory is the new one, below the linked entry, or an old one. -/
theorem link_cases (htab : Tables k.phys R root V) (hfree : Free k R (p :: L)) (hva : va ∈ V)
    (hd : d < 3) (ht : tableAt k.phys root va d = some t)
    (habs : ¬ Present (k.phys (cell t va d))) {r va' t' : Word} {d' : Nat} (hr : r ∈ R)
    (h : tableAt (k.newTable (cell t va d)).1.phys r va' d' = some t') :
    (r = root ∧ d' = d + 1 ∧ SamePrefix (d + 1) va' va ∧ t' = p) ∨
      tableAt k.phys r va' d' = some t' := by
  rw [(link_linked htab hfree hva hd ht habs).2 r hr va' d'] at h
  split_ifs at h with hc
  · exact .inl ⟨hc.1, hc.2.1, hc.2.2, (Option.some.inj h).symm⟩
  · exact .inr h

/-- **A link** in one root keeps the condition for every root. -/
theorem Tables.link {root' : Word} {V' : Set Word} (h : Tables k.phys R root' V')
    (htab : Tables k.phys R root V) (hfree : Free k R (p :: L)) (hva : va ∈ V) (hd : d < 3)
    (ht : tableAt k.phys root va d = some t) (habs : ¬ Present (k.phys (cell t va d))) :
    Tables (k.newTable (cell t va d)).1.phys R root' V' := by
  have hp : IsFrame p := hfree.frames p (by simp)
  have hnew : ∀ r ∈ R, ∀ va d, tableAt k.phys r va d ≠ some p := hfree.unused p (by simp)
  obtain ⟨hm, -⟩ := link_linked htab hfree hva hd ht habs
  have hcases : ∀ r ∈ R, ∀ va' d' t',
      tableAt (k.newTable (cell t va d)).1.phys r va' d' = some t' →
      (r = root ∧ d' = d + 1 ∧ SamePrefix (d + 1) va' va ∧ t' = p) ∨
        tableAt k.phys r va' d' = some t' :=
    fun r hr va' d' t' ht' => link_cases htab hfree hva hd ht habs hr ht'
  refine ⟨h.roots, h.root_mem, ?_, ?_⟩
  · intro va₂ hva₂ d₂ t' ht' r hr va' d' ht''
    rcases hcases root' h.root_mem va₂ d₂ t' ht' with ⟨rfl, rfl, hpre, rfl⟩ | hold
    · rcases hcases r hr va' d' _ ht'' with ⟨rfl, rfl, hpre', -⟩ | hold'
      · exact ⟨rfl, rfl, fun k hk => (hpre' k hk).trans (hpre k hk).symm⟩
      · exact absurd hold' (hnew r hr va' d')
    · rcases hcases r hr va' d' t' ht'' with ⟨-, -, -, rfl⟩ | hold'
      · exact absurd hold (hnew root' h.root_mem va₂ d₂)
      · exact h.priv va₂ hva₂ d₂ t' hold r hr va' d' hold'
  · intro va₂ hva₂ d₂ hd₂ t' ht' hpres
    rcases hcases root' h.root_mem va₂ d₂ t' ht' with ⟨-, -, -, rfl⟩ | hold
    · exact absurd (hm.zero va₂ d₂) (fun h => hpres (by rw [h]; decide))
    · by_cases hc : root' = root ∧ d₂ = d ∧ SamePrefix (d + 1) va₂ va
      · obtain ⟨rfl, rfl, hpre⟩ := hc
        rw [tableAt_samePrefix (samePrefix_succ.mp hpre).1, ht] at hold
        obtain rfl := Option.some.inj hold
        rw [show cell t va₂ d₂ = cell t va d₂ by rw [cell, cell, (samePrefix_succ.mp hpre).2],
          hm.entry]
        exact linked_entry_table hp.aligned hd
      · have hsame := hm.same_on_walk htab.roots htab.root_mem hnew ht (htab.priv va hva d)
          h.root_mem hold hc
        rw [hsame] at hpres ⊢
        exact h.small va₂ hva₂ d₂ hd₂ t' hold hpres

/-- **One link** keeps the condition and uses up one page. -/
theorem link_step (htab : Tables k.phys R root V) (hfree : Free k R (p :: L)) (hva : va ∈ V)
    (hd : d < 3) (ht : tableAt k.phys root va d = some t)
    (habs : ¬ Present (k.phys (cell t va d))) :
    Tables (k.newTable (cell t va d)).1.phys R root V ∧
    Free (k.newTable (cell t va d)).1 R L ∧
    Grown R k.phys (k.newTable (cell t va d)).1.phys ∧
    tableAt (k.newTable (cell t va d)).1.phys root va (d + 1) = some p := by
  have hp : IsFrame p := hfree.frames p (by simp)
  have hnew : ∀ r ∈ R, ∀ va d, tableAt k.phys r va d ≠ some p := hfree.unused p (by simp)
  have htal := tableAt_aligned (htab.roots root htab.root_mem) ht
  obtain ⟨hm, hlink⟩ := link_linked htab hfree hva hd ht habs
  refine ⟨htab.link htab hfree hva hd ht habs, ⟨?_, ?_, ?_, ?_⟩, ⟨?_, ?_⟩, ?_⟩
  · exact newTable_free hfree.pages hp.aligned (fun q hq => (hfree.frames q (by simp [hq])).aligned)
      hfree.nodup htal fun h => hfree.unused t (by simp [h]) root htab.root_mem va d ht
  · exact fun q hq => hfree.frames q (by simp [hq])
  · exact (List.nodup_cons.mp hfree.nodup).2
  · intro q hq r hr va' d' h
    rcases link_cases htab hfree hva hd ht habs hr h with ⟨-, -, -, rfl⟩ | hold
    · exact (List.nodup_cons.mp hfree.nodup).1 hq
    · exact hfree.unused q (by simp [hq]) r hr va' d' hold
  · intro r hr va' d' t' h
    rw [hlink r hr va' d', if_neg]
    · exact h
    · rintro ⟨rfl, rfl, hpre⟩
      obtain ⟨t₀, h₀, hpres, -⟩ := tableAt_above h (Nat.lt_succ_self d)
      rw [tableAt_samePrefix (samePrefix_succ.mp hpre).1, ht] at h₀
      obtain rfl := Option.some.inj h₀
      rw [show cell t va' d = cell t va d by rw [cell, cell, (samePrefix_succ.mp hpre).2]] at hpres
      exact habs hpres
  · exact fun r hr va' => translate_link htab.roots htab.root_mem hp.aligned hnew hd ht habs
      (htab.priv va hva d) hm hr va'
  · rw [hlink root htab.root_mem va (d + 1), if_pos ⟨rfl, rfl, fun _ _ => rfl⟩]

/-- **The creation** keeps the condition and leads to the level-3 entry. It keeps whatever the
    new tables keep, which are free pages. -/
theorem create_keeps {s : Mman} (P : Mman → Prop) (hP : P s)
    (htable : ∀ s' pa, P s' → s'.kmem.lastUnused ∈ L → P (s'.newTable pa))
    (htab : Tables s.phys R root V) (hfree : Free s.kmem R L) (hva : va ∈ V)
    (henough : (mmanPagingAddrCreate s root va 3).1.kmem.taken ≤ s.kmem.taken + L.length) :
    P (mmanPagingAddrCreate s root va 3).1 ∧
    Tables (mmanPagingAddrCreate s root va 3).1.phys R root V ∧
    Free (mmanPagingAddrCreate s root va 3).1.kmem R
      (L.drop ((mmanPagingAddrCreate s root va 3).1.kmem.taken - s.kmem.taken)) ∧
    Grown R s.phys (mmanPagingAddrCreate s root va 3).1.phys ∧
    ∃ t, tableAt (mmanPagingAddrCreate s root va 3).1.phys root va 3 = some t ∧
      (mmanPagingAddrCreate s root va 3).2 = cell t va 3 := by
  obtain ⟨⟨hP', htab', hfree', hgrown, -⟩, haddr⟩ := pagingAddrCreate_rule Mman.phys Mman.newTable
    root va 3
    (fun s' => P s' ∧ Tables s'.phys R root V ∧
      Free s'.kmem R (L.drop (s'.kmem.taken - s.kmem.taken)) ∧
      Grown R s.phys s'.phys ∧ s.kmem.taken ≤ s'.kmem.taken)
    (fun s' => s'.kmem.taken ≤ s.kmem.taken + L.length)
    ⟨hP, htab, by simpa using hfree, Grown.refl R _, le_rfl⟩
    (fun s' _ h => (Nat.le_succ s'.kmem.taken).trans h)
    (by
      rintro s' i pa ⟨hP', htab', hfree', hgrown, hle⟩ hi hpa hnext hgood
      rw [htab'.kmemPagingAddr hva (by omega), Option.map_eq_some_iff] at hpa
      obtain ⟨t, ht, rfl⟩ := hpa
      have habs : ¬ Present (s'.phys (cell t va i)) := fun hpres => by
        rw [htab'.kmemPagingAddr hva (by omega), Option.map_eq_none_iff] at hnext
        have := tableAt_succ_iff.mpr
          ⟨t, ht, hpres, htab'.small va hva i hi t ht hpres, rfl⟩
        rw [hnext] at this
        cases this
      have hroom : s'.kmem.taken + 1 ≤ s.kmem.taken + L.length := hgood
      have hlt : s'.kmem.taken - s.kmem.taken < L.length := by omega
      rw [List.drop_eq_getElem_cons hlt] at hfree'
      have hhead : s'.kmem.lastUnused ∈ L := by
        rw [hfree'.pages.head_eq]
        exact List.getElem_mem hlt
      obtain ⟨htab'', hfree'', hgrown', hnew⟩ := link_step htab' hfree' hva hi ht habs
      have htaken : (s'.newTable (cell t va i)).kmem.taken - s.kmem.taken =
          s'.kmem.taken - s.kmem.taken + 1 := by
        rw [newTable_kmem, newTable_taken]
        omega
      have haddr := htab''.kmemPagingAddr hva (d := i + 1) (by omega)
      rw [hnew] at haddr
      exact ⟨⟨htable s' _ hP' hhead, htab'', by rw [htaken]; exact hfree'',
        hgrown.trans hgrown', hle.trans (Nat.le_succ _)⟩, _, haddr⟩)
    henough
  refine ⟨hP', htab', hfree', hgrown, ?_⟩
  rw [htab'.kmemPagingAddr hva le_rfl, Option.map_eq_some_iff] at haddr
  obtain ⟨t, ht, heq⟩ := haddr
  exact ⟨t, ht, heq.symm⟩

theorem create_spec {s : Mman} (htab : Tables s.phys R root V) (hfree : Free s.kmem R L)
    (hva : va ∈ V)
    (henough : (mmanPagingAddrCreate s root va 3).1.kmem.taken ≤ s.kmem.taken + L.length) :
    Tables (mmanPagingAddrCreate s root va 3).1.phys R root V ∧
    Free (mmanPagingAddrCreate s root va 3).1.kmem R
      (L.drop ((mmanPagingAddrCreate s root va 3).1.kmem.taken - s.kmem.taken)) ∧
    Grown R s.phys (mmanPagingAddrCreate s root va 3).1.phys ∧
    ∃ t, tableAt (mmanPagingAddrCreate s root va 3).1.phys root va 3 = some t ∧
      (mmanPagingAddrCreate s root va 3).2 = cell t va 3 :=
  (create_keeps (fun _ => True) trivial (fun _ _ _ _ => trivial) htab hfree hva henough).2

/-- **A write** to a level-3 entry of one root keeps the condition for every root. -/
theorem Tables.leaf {root' entry : Word} {V' : Set Word} (h : Tables k.phys R root' V')
    (htab : Tables k.phys R root V) (hva : va ∈ V) (ht : tableAt k.phys root va 3 = some t) :
    Tables (Function.update k.phys (cell t va 3) entry) R root' V' := by
  have hpriv := htab.priv va hva 3
  have htables : ∀ r ∈ R, ∀ va' d, tableAt (Function.update k.phys (cell t va 3) entry) r va' d =
      tableAt k.phys r va' d :=
    fun r hr va' d => (translate_leaf htab.roots htab.root_mem ht hpriv entry hr va').1 d
  refine ⟨h.roots, h.root_mem, ?_, ?_⟩
  · intro va₂ hva₂ d t' ht' r hr va' d' ht''
    rw [htables root' h.root_mem] at ht'
    rw [htables r hr] at ht''
    exact h.priv va₂ hva₂ d t' ht' r hr va' d' ht''
  · intro va₂ hva₂ d hd t' ht' hpres
    rw [htables root' h.root_mem] at ht'
    -- the written entry is at level 3
    have hne : cell t' va₂ d ≠ cell t va 3 := fun hcell => by
      obtain ⟨rfl, -⟩ := (cell_inj (tableAt_aligned (h.roots root' h.root_mem) ht')
        (tableAt_aligned (htab.roots root htab.root_mem) ht)).mp hcell
      obtain ⟨-, rfl, -⟩ := hpriv t' ht root' h.root_mem va₂ d ht'
      omega
    rw [Function.update_of_ne hne] at hpres ⊢
    exact h.small va₂ hva₂ d hd t' ht' hpres

/-- **Writing a level-3 entry** keeps the condition, and changes the translation of its page
    only. -/
theorem leaf_step (k' : Kmem) {entry : Word} (htab : Tables k.phys R root V) (hva : va ∈ V)
    (ht : tableAt k.phys root va 3 = some t) (hm : k'.phys = Function.update k.phys (cell t va 3) entry) :
    Tables k'.phys R root V ∧
    (∀ r ∈ R, ∀ va d, tableAt k'.phys r va d = tableAt k.phys r va d) ∧
    (∀ r ∈ R, ∀ va', ¬ (r = root ∧ SamePrefix 4 va' va) →
      translate k'.phys r va' = translate k.phys r va') := by
  have hpriv := htab.priv va hva 3
  rw [hm]
  refine ⟨htab.leaf htab hva ht, fun r hr va' d => ?_, fun r hr va' hnot => ?_⟩
  · exact (translate_leaf htab.roots htab.root_mem ht hpriv entry hr va').1 d
  · exact (translate_leaf htab.roots htab.root_mem ht hpriv entry hr va').2 hnot

/-- The free list does not notice a write to a table. -/
theorem Free.leaf (entry : Word) (hfree : Free k R L) (hroot : root ∈ R) (hroots : PageAligned root)
    (ht : tableAt k.phys root va 3 = some t)
    (htables : ∀ r ∈ R, ∀ va' d, tableAt (Function.update k.phys (cell t va 3) entry) r va' d =
      tableAt k.phys r va' d) :
    Free { k with phys := Function.update k.phys (cell t va 3) entry } R L := by
  refine ⟨hfree.pages.write fun hmem => ?_, hfree.frames, hfree.nodup, fun p hp r hr va' d' h => ?_⟩
  · have heq := cell_eq_page (tableAt_aligned hroots ht) (hfree.frames _ hmem).aligned rfl
    rw [← heq] at hmem
    exact hfree.unused t hmem root hroot va 3 ht
  · exact hfree.unused p hp r hr va' d' ((htables r hr va' d').symm.trans h)

end

/-! ## One page -/

/-- What a turn of a mapping loop has done: the page maps through `entry`, every other page of
    every root is as it was, and the next turn can go on. -/
structure PageDone (R : Set Word) (root : Word) (V : Set Word) (L : List Word) (s s' : Mman)
    (va entry : Word) : Prop where
  taken : s.kmem.taken ≤ s'.kmem.taken
  tables : Tables s'.phys R root V
  free : Free s'.kmem R (L.drop (s'.kmem.taken - s.kmem.taken))
  mapped : mapping s'.phys root va = some entry
  others : ∀ r ∈ R, ∀ va', ¬ (r = root ∧ SamePrefix 4 va' va) →
    translate s'.phys r va' = translate s.phys r va'
  grown : ∀ r ∈ R, ∀ va d t, tableAt s.phys r va d = some t → tableAt s'.phys r va d = some t

section
variable {R : Set Word} {root va t : Word} {V : Set Word} {L : List Word} {s s₁ s₂ : Mman}
  {entry : Word}

/-- A creation and a write of its entry. -/
theorem pageDone_of_write (hva : va ∈ V) (hle : s.kmem.taken ≤ s₂.kmem.taken)
    (htab : Tables s₁.phys R root V) (hgrown : Grown R s.phys s₁.phys)
    (ht : tableAt s₁.phys root va 3 = some t)
    (hphys : s₂.phys = Function.update s₁.phys (cell t va 3) entry)
    (hfree : (∀ r ∈ R, ∀ va d, tableAt s₂.phys r va d = tableAt s₁.phys r va d) →
      Free s₂.kmem R (L.drop (s₂.kmem.taken - s.kmem.taken)))
    (hpres : Present entry) : PageDone R root V L s s₂ va entry := by
  obtain ⟨htab₂, htables, hothers⟩ := leaf_step s₂.kmem htab hva ht hphys
  have hread : s₂.phys (cell t va 3) = entry := by rw [hphys, Function.update_self]
  refine ⟨hle, htab₂, hfree htables, ?_, fun r hr va' hnot => ?_, fun r hr va' d t' h => ?_⟩
  · have ht₂ : tableAt s₂.phys root va 3 = some t := (htables root htab.root_mem va 3).trans ht
    rw [mapping_of_table ht₂ (by rwa [hread]), hread]
  · exact (hothers r hr va' hnot).trans (hgrown.translate r hr va')
  · exact (htables r hr va' d).trans (hgrown.tables r hr va' d t' h)

/-- `mman_anonymous`, one page: the frame is the next one of the list after the tables. -/
theorem anonymousPage_spec (htab : Tables s.phys R root V) (hfree : Free s.kmem R L)
    (hva : va ∈ V)
    (henough : (anonymousPage root s va).kmem.taken ≤ s.kmem.taken + L.length) :
    ∃ f ∈ L, f ∉ L.drop ((anonymousPage root s va).kmem.taken - s.kmem.taken) ∧
      PageDone R root V L s (anonymousPage root s va) va (f ||| kmemMapData) := by
  have hle := create_taken s root va 3
  have htaken : (anonymousPage root s va).kmem.taken =
      (mmanPagingAddrCreate s root va 3).1.kmem.taken + 1 := rfl
  obtain ⟨htab₁, hfree₁, hgrown, t, ht, haddr⟩ := create_spec htab hfree hva (by omega)
  have hlt : (mmanPagingAddrCreate s root va 3).1.kmem.taken - s.kmem.taken < L.length := by omega
  have hdrop := List.drop_eq_getElem_cons hlt
  have hmem : L[(mmanPagingAddrCreate s root va 3).1.kmem.taken - s.kmem.taken] ∈ L :=
    List.getElem_mem hlt
  generalize L[(mmanPagingAddrCreate s root va 3).1.kmem.taken - s.kmem.taken] = f at hdrop hmem
  rw [hdrop] at hfree₁
  have hpage : (mmanPagingAddrCreate s root va 3).1.kmem.lastUnused = f := hfree₁.pages.head_eq
  have hsub : (anonymousPage root s va).kmem.taken - s.kmem.taken =
      (mmanPagingAddrCreate s root va 3).1.kmem.taken - s.kmem.taken + 1 := by omega
  have hphys : (anonymousPage root s va).phys =
      Function.update (mmanPagingAddrCreate s root va 3).1.phys (cell t va 3)
        (f ||| kmemMapData) := by
    simp only [anonymousPage, incrementPage_phys, write_phys, getpage_phys, haddr]
    rw [show (mmanPagingAddrCreate s root va 3).1.getpage.2 = f from hpage]
  refine ⟨f, hmem, ?_, ?_⟩
  · rw [hsub]
    exact (List.nodup_cons.mp hfree₁.nodup).1
  · refine pageDone_of_write hva (by omega) htab₁ hgrown ht hphys (fun htables => ?_)
      (present_data f (hfree.frames f hmem))
    have hfree₂ : Free (kmemGetpage (mmanPagingAddrCreate s root va 3).1.kmem).1 R _ :=
      ⟨hfree₁.pages.getpage, fun p hp => hfree₁.frames p (List.mem_cons_of_mem _ hp),
        (List.nodup_cons.mp hfree₁.nodup).2,
        fun p hp => hfree₁.unused p (List.mem_cons_of_mem _ hp)⟩
    rw [hsub]
    have := Free.leaf (f ||| kmemMapData) hfree₂ htab.root_mem
      (htab.roots root htab.root_mem) ht (fun r hr va' d => by
        have := htables r hr va' d
        rwa [hphys] at this)
    simp only [anonymousPage, incrementPage_kmem, haddr]
    rw [show (mmanPagingAddrCreate s root va 3).1.getpage.2 = f from hpage]
    exact this

/-- `mman_physical`, one page. -/
theorem physicalPage_spec {paddress : Word} (htab : Tables s.phys R root V)
    (hfree : Free s.kmem R L) (hva : va ∈ V) (hframe : IsFrame paddress)
    (henough : (physicalPage root s va paddress).kmem.taken ≤ s.kmem.taken + L.length) :
    PageDone R root V L s (physicalPage root s va paddress) va (paddress ||| kmemMapData) := by
  have hle := create_taken s root va 3
  obtain ⟨htab₁, hfree₁, hgrown, t, ht, haddr⟩ := create_spec htab hfree hva henough
  have hphys : (physicalPage root s va paddress).phys =
      Function.update (mmanPagingAddrCreate s root va 3).1.phys (cell t va 3)
        (paddress ||| kmemMapData) := by
    simp only [physicalPage, write_phys, haddr]
  refine pageDone_of_write hva hle htab₁ hgrown ht hphys (fun htables => ?_)
    (present_data paddress hframe)
  have := Free.leaf (paddress ||| kmemMapData) hfree₁ htab.root_mem
    (htab.roots root htab.root_mem) ht (fun r hr va' d => by
      have := htables r hr va' d
      rwa [hphys] at this)
  simp only [physicalPage, haddr]
  exact this

/-- `mman_mirror`, one page: the source's walk is complete, so only the target's creates. -/
theorem mirrorPage_eq {sroot sva st sentry : Word} (htab : Tables s.phys R root V)
    (hfree : Free s.kmem R L) (hva : va ∈ V) (hsroot : sroot ∈ R)
    (hst : tableAt s.phys sroot sva 3 = some st) (hsentry : mapping s.phys sroot sva = some sentry)
    (henough : (mmanPagingAddrCreate s root va 3).1.kmem.taken ≤ s.kmem.taken + L.length) :
    mirrorPage root sroot s va sva = incrementPage ((mmanPagingAddrCreate s root va 3).1.write
      (mmanPagingAddrCreate s root va 3).2 sentry) (sentry &&& kmemFrameMask) ∧
    Present sentry := by
  obtain ⟨-, -, hgrown, -⟩ := create_spec htab hfree hva henough
  have hst₁ := hgrown.tables sroot hsroot sva 3 st hst
  have hread := mapping_table_entry hst₁
    (by rw [mapping, hgrown.translate sroot hsroot sva, ← mapping]; exact hsentry)
  refine ⟨?_, hread.2⟩
  simp only [mirrorPage, mmanPagingAddrCreate_of_table hst₁, hread.1]

/-- `mman_mirror`, one page, whose source is mapped below level 3. -/
theorem mirrorPage_spec {sroot sva st sentry : Word} (htab : Tables s.phys R root V)
    (hfree : Free s.kmem R L) (hva : va ∈ V) (hsroot : sroot ∈ R)
    (hst : tableAt s.phys sroot sva 3 = some st) (hsentry : mapping s.phys sroot sva = some sentry)
    (henough : (mirrorPage root sroot s va sva).kmem.taken ≤ s.kmem.taken + L.length) :
    PageDone R root V L s (mirrorPage root sroot s va sva) va sentry := by
  have hle := create_taken s root va 3
  have hgood : (mmanPagingAddrCreate s root va 3).1.kmem.taken ≤ s.kmem.taken + L.length :=
    (create_taken _ sroot sva 3).trans henough
  obtain ⟨htab₁, hfree₁, hgrown, t, ht, haddr⟩ := create_spec htab hfree hva hgood
  obtain ⟨hstate, hpres⟩ := mirrorPage_eq htab hfree hva hsroot hst hsentry hgood
  rw [haddr] at hstate
  have hphys : (mirrorPage root sroot s va sva).phys =
      Function.update (mmanPagingAddrCreate s root va 3).1.phys (cell t va 3) sentry := by
    rw [hstate, incrementPage_phys, write_phys]
  refine pageDone_of_write hva (by rw [hstate]; exact hle) htab₁ hgrown ht hphys
    (fun htables => ?_) hpres
  have := Free.leaf sentry hfree₁ htab.root_mem (htab.roots root htab.root_mem) ht
    (fun r hr va' d => by
      have := htables r hr va' d
      rwa [hphys] at this)
  rw [hstate]
  exact this

/-- `mman_mirror`, one page: its frame has a reference more. -/
theorem mirrorPage_count {sroot sva st sentry : Word} (htab : Tables s.phys R root V)
    (hfree : Free s.kmem R L) (hva : va ∈ V) (hsroot : sroot ∈ R)
    (hst : tableAt s.phys sroot sva 3 = some st) (hsentry : mapping s.phys sroot sva = some sentry)
    (henough : (mirrorPage root sroot s va sva).kmem.taken ≤ s.kmem.taken + L.length) {p : Word}
    (hp : p ∉ L) :
    (mirrorPage root sroot s va sva).pageCount p =
      s.pageCount p + if sentry &&& kmemFrameMask = p then 1 else 0 := by
  have hgood : (mmanPagingAddrCreate s root va 3).1.kmem.taken ≤ s.kmem.taken + L.length :=
    (create_taken _ sroot sva 3).trans henough
  have hcreate := (create_keeps (fun s' => s'.pageCount p = s.pageCount p) rfl (by
    intro s' pa hs' hnew
    have hne : s'.kmem.lastUnused ≠ p := fun h => hp (h ▸ hnew)
    rw [← hs']
    show (incrementPage _ s'.kmem.lastUnused).pageCount p = s'.pageCount p
    rw [pageCount_incrementPage, if_neg hne]
    rfl) htab hfree hva hgood).1
  rw [(mirrorPage_eq htab hfree hva hsroot hst hsentry hgood).1, pageCount_incrementPage]
  exact congrArg (· + _) hcreate

end

/-! ## All pages -/

/-- The translations of two memories differ at most in the first `n` pages from `address` on,
    in `root`. -/
def SameOutside (R : Set Word) (root address : Word) (n : Nat) (m m' : Phys) : Prop :=
  ∀ r ∈ R, ∀ va, (r = root → ∀ j < n, ¬ SamePrefix 4 va (nthPage address j)) →
    translate m' r va = translate m r va

section
variable {R : Set Word} {root address : Word} {V : Set Word} {L : List Word} {s : Mman}
  {size : Word}

/-- **The mapping loops.** If every page maps through an entry that satisfies `E` (of the
    page's number, and of how much of the list was used before and after it), then in the end
    all of them do, and nothing else has changed. -/
theorem map_loop (body : Mman → Word → Mman) (E : Nat → Nat → Nat → Word → Prop) (htab : Tables s.phys R root V)
    (hfree : Free s.kmem R L)
    (hdistinct : ∀ i < size.toNat / 0x1000, ∀ j < size.toNat / 0x1000,
      SamePrefix 4 (nthPage address i) (nthPage address j) → i = j)
    (hmono : ∀ s off, s.kmem.taken ≤ (body s off).kmem.taken)
    (hpage : ∀ i s', i < size.toNat / 0x1000 → Tables s'.phys R root V →
      Free s'.kmem R (L.drop (s'.kmem.taken - s.kmem.taken)) → s.kmem.taken ≤ s'.kmem.taken →
      SameOutside R root address i s.phys s'.phys →
      (∀ r ∈ R, ∀ va d t, tableAt s.phys r va d = some t → tableAt s'.phys r va d = some t) →
      (body s' (BitVec.ofNat 64 i * 0x1000)).kmem.taken ≤ s.kmem.taken + L.length →
      ∃ entry, E i (s'.kmem.taken - s.kmem.taken)
          ((body s' (BitVec.ofNat 64 i * 0x1000)).kmem.taken - s.kmem.taken) entry ∧
        PageDone R root V (L.drop (s'.kmem.taken - s.kmem.taken)) s'
          (body s' (BitVec.ofNat 64 i * 0x1000)) (nthPage address i) entry)
    (henough : (forPages size body s).kmem.taken ≤ s.kmem.taken + L.length) :
    ∃ e : Nat → Word, ∃ pos : Nat → Nat,
      (∀ j < size.toNat / 0x1000,
        mapping (forPages size body s).phys root (nthPage address j) = some (e j) ∧
        E j (pos j) (pos (j + 1)) (e j) ∧ pos j ≤ pos (j + 1)) ∧
      SameOutside R root address (size.toNat / 0x1000) s.phys (forPages size body s).phys := by
  obtain ⟨-, -, -, hsame, -, e, pos, hdone, -⟩ := forPages_rule size body s
    (fun i s' => s.kmem.taken ≤ s'.kmem.taken ∧ Tables s'.phys R root V ∧
      Free s'.kmem R (L.drop (s'.kmem.taken - s.kmem.taken)) ∧
      SameOutside R root address i s.phys s'.phys ∧
      (∀ r ∈ R, ∀ va d t, tableAt s.phys r va d = some t → tableAt s'.phys r va d = some t) ∧
      ∃ e : Nat → Word, ∃ pos : Nat → Nat,
        (∀ j < i, mapping s'.phys root (nthPage address j) = some (e j) ∧
          E j (pos j) (pos (j + 1)) (e j) ∧ pos j ≤ pos (j + 1)) ∧
        pos i = s'.kmem.taken - s.kmem.taken)
    (fun s' => s'.kmem.taken ≤ s.kmem.taken + L.length)
    ⟨le_rfl, htab, by simpa using hfree, fun _ _ _ _ => rfl, fun _ _ _ _ _ h => h,
      fun _ => 0, fun _ => 0, by simp, by simp⟩
    (fun s' off h => (hmono s' off).trans h)
    (by
      rintro i s' hi ⟨hle, htab', hfree', hsame, hgrown, e, pos, hdone, hpos⟩ hgood
      obtain ⟨entry, hE, hP⟩ := hpage i s' hi htab' hfree' hle hsame hgrown hgood
      have hle' := hP.taken
      refine ⟨hle.trans hle', hP.tables, ?_, ?_, fun r hr va d t h => hP.grown r hr va d t
        (hgrown r hr va d t h), Function.update e i entry,
        Function.update pos (i + 1)
          ((body s' (BitVec.ofNat 64 i * 0x1000)).kmem.taken - s.kmem.taken), ?_, ?_⟩
      · have := hP.free
        rw [List.drop_drop] at this
        rwa [show (body s' (BitVec.ofNat 64 i * 0x1000)).kmem.taken - s.kmem.taken =
          s'.kmem.taken - s.kmem.taken +
            ((body s' (BitVec.ofNat 64 i * 0x1000)).kmem.taken - s'.kmem.taken) by omega]
      · intro r hr va hnot
        rw [hP.others r hr va fun h => hnot h.1 i (by omega) h.2]
        exact hsame r hr va fun hrr j hj => hnot hrr j (by omega)
      · intro j hj
        rcases Nat.lt_succ_iff_lt_or_eq.mp hj with hlt | rfl
        · -- an earlier page is another page
          obtain ⟨hmap, hEj, hposj⟩ := hdone j hlt
          have hne : ¬ (root = root ∧ SamePrefix 4 (nthPage address j) (nthPage address i)) :=
            fun h => absurd (hdistinct j (by omega) i hi h.2) (by omega)
          rw [mapping, hP.others root htab.root_mem _ hne, ← mapping, hmap,
            Function.update_of_ne (by omega), Function.update_of_ne (by omega),
            Function.update_of_ne (by omega)]
          exact ⟨rfl, hEj, hposj⟩
        · rw [Function.update_self, Function.update_self, Function.update_of_ne (by omega), hpos]
          exact ⟨hP.mapped, hE, by omega⟩
      · rw [Function.update_self])
    henough
  exact ⟨e, pos, hdone, hsame⟩

end

/-! ## Unmapping -/

theorem decrementPage_phys (s : Mman) (page : Word) :
    (decrementPage s page).phys = s.phys ∨
      (decrementPage s page).phys = Function.update s.phys page s.kmem.lastUnused := by
  simp only [decrementPage]
  split_ifs
  · exact .inl rfl
  · exact .inl rfl
  · exact .inr rfl

section
variable {m m' : Phys} {R : Set Word} {root va : Word} {V : Set Word} {s : Mman}

theorem Tables.of_agree (h : Tables m R root V)
    (hsame : ∀ r ∈ R, ∀ va d t, tableAt m r va d = some t → m' (cell t va d) = m (cell t va d)) :
    Tables m' R root V ∧ (∀ r ∈ R, ∀ va d, tableAt m' r va d = tableAt m r va d) ∧
      ∀ r ∈ R, ∀ va, translate m' r va = translate m r va := by
  have hagree : ∀ r ∈ R, ∀ va, _ := fun r hr va => translate_of_agree (hsame r hr va)
  have htables : ∀ r ∈ R, ∀ va d, tableAt m' r va d = tableAt m r va d := fun r hr va =>
    (hagree r hr va).1
  refine ⟨⟨h.roots, h.root_mem, ?_, ?_⟩, htables, fun r hr va => (hagree r hr va).2⟩
  · intro va hva d t ht r hr va' d' ht'
    rw [htables root h.root_mem] at ht
    rw [htables r hr] at ht'
    exact h.priv va hva d t ht r hr va' d' ht'
  · intro va hva d hd t ht
    rw [htables root h.root_mem] at ht
    rw [hsame root h.root_mem va d t ht]
    exact h.small va hva d hd t ht

theorem Tables.translate_of_incomplete (h : Tables m R root V) (hva : va ∈ V)
    (hnone : tableAt m root va 3 = none) : translate m root va = none :=
  WalksTables.translate_of_incomplete (h.small va hva) hnone

/-- `mman_unmap`, one page, where the frame that is let go is not one of the tables. -/
theorem unmapPage_spec (htab : Tables s.phys R root V) (hva : va ∈ V)
    (hdata : ∀ entry, mapping s.phys root va = some entry → ∀ r ∈ R, ∀ va' d,
      tableAt s.phys r va' d ≠ some (entry &&& kmemFrameMask)) :
    Tables (onEntry root unmapEntry s va).phys R root V ∧
    (∀ r ∈ R, ∀ va' d, tableAt (onEntry root unmapEntry s va).phys r va' d =
      tableAt s.phys r va' d) ∧
    translate (onEntry root unmapEntry s va).phys root va = none ∧
    ∀ r ∈ R, ∀ va', ¬ (r = root ∧ SamePrefix 4 va' va) →
      translate (onEntry root unmapEntry s va).phys r va' = translate s.phys r va' := by
  have haddr := htab.kmemPagingAddr hva le_rfl
  unfold onEntry
  cases ht : tableAt s.phys root va 3 with
  | none =>
    rw [ht, Option.map_none] at haddr
    simp only [haddr]
    exact ⟨htab, fun _ _ _ _ => trivial, htab.translate_of_incomplete hva ht,
      fun _ _ _ _ => trivial⟩
  | some t =>
    rw [ht, Option.map_some] at haddr
    simp only [haddr]
    by_cases hpres : Present (s.phys (cell t va 3))
    · rw [if_pos hpres]
      -- the frame may be freed, which writes to its first word
      have hframe := hdata _ (mapping_of_table ht hpres)
      have hwalk : ∀ r ∈ R, ∀ va' d t', tableAt s.phys r va' d = some t' →
          (decrementPage s (s.phys (cell t va 3) &&& kmemFrameMask)).phys (cell t' va' d) =
            s.phys (cell t' va' d) := by
        intro r hr va' d t' ht'
        rcases decrementPage_phys s (s.phys (cell t va 3) &&& kmemFrameMask) with h | h
        · rw [h]
        · rw [h, Function.update_of_ne]
          intro hcell
          have := cell_eq_page (tableAt_aligned (htab.roots r hr) ht') (isFrame_and _).aligned hcell
          exact hframe r hr va' d (this ▸ ht')
      obtain ⟨htab₁, htables₁, htrans₁⟩ := htab.of_agree hwalk
      have ht₁ := (htables₁ root htab.root_mem va 3).trans ht
      obtain ⟨htab₂, htables₂, hothers⟩ := leaf_step
        (unmapEntry s (cell t va 3) (s.phys (cell t va 3))).kmem htab₁ hva ht₁ rfl
      have ht₂ := (htables₂ root htab.root_mem va 3).trans ht₁
      refine ⟨htab₂, fun r hr va' d => (htables₂ r hr va' d).trans (htables₁ r hr va' d), ?_,
        fun r hr va' hnot => (hothers r hr va' hnot).trans (htrans₁ r hr va')⟩
      refine translate_of_absent ht₂ ?_
      have hread : (unmapEntry s (cell t va 3) (s.phys (cell t va 3))).phys (cell t va 3) = 0 :=
        Function.update_self ..
      exact fun hp => hp (by rw [hread]; decide)
    · rw [if_neg hpres]
      exact ⟨htab, fun _ _ _ _ => rfl, translate_of_absent ht hpres, fun _ _ _ _ => rfl⟩

end

end Refk
