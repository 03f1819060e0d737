import Refk.Lib.Bytes
import Refk.Klib.Kmem

/-!
# `kernel/hw/apics.c` — the walk over the MADT

The table is a header of 44 bytes and a row of subtables, each of which begins with its type and
its length. The walk goes from one to the next by the length that the table gives, as long as the
next one begins inside the table: it does not look at whether the length is zero, nor whether what
it reads of a subtable is inside.
-/

namespace Refk

open Lib

/-! ## The code -/

/-- The table by its bytes, and what memory has behind it. -/
abbrev Madt := Nat → Byte

/-- `sizeof(ACPI_TABLE_MADT)` -/
def madtSize : Nat := 44

/-- `ACPI_MADT_TYPE_LOCAL_APIC` -/
def acpiMadtTypeLocalApic : Byte := 0

/-- `ACPI_MADT_TYPE_IO_APIC` -/
def acpiMadtTypeIoApic : Byte := 1

/-- A `UINT32` at byte `i`. -/
def Madt.uint32 (t : Madt) (i : Nat) : BitVec 32 := BitVec.ofNat 32 (ofLe (load t i 4))

/-- `Header.Length` -/
def Madt.length (t : Madt) : BitVec 32 := t.uint32 4

/-- What the walk does. -/
inductive ApicsCall where
  | ioapicInit (address irqbase : Word)
  | foundAp
  deriving DecidableEq, Repr

/-- A part of the walk: its calls, and the bytes of the table that it reads, in order. -/
structure Walk where
  calls : List ApicsCall
  reads : List Nat
  deriving DecidableEq, Repr

/-- The two branches of the loop, on the subtable that begins at byte `begin_`. -/
def madtSubtable (t : Madt) (lapicId : Byte) (begin_ : Nat) : Walk :=
  if t begin_ = acpiMadtTypeIoApic then
    ⟨[.ioapicInit ((t.uint32 (begin_ + 4)).setWidth 64) ((t.uint32 (begin_ + 8)).setWidth 64)],
      begin_ :: (List.range' (begin_ + 4) 4 ++ List.range' (begin_ + 8) 4)⟩
  else if t begin_ = acpiMadtTypeLocalApic then
    if t.uint32 (begin_ + 4) &&& 1 ≠ 0 then
      ⟨if t (begin_ + 3) ≠ lapicId then [.foundAp] else [],
        begin_ :: (List.range' (begin_ + 4) 4 ++ [begin_ + 3])⟩
    else ⟨[], begin_ :: List.range' (begin_ + 4) 4⟩
  else ⟨[], [begin_]⟩

/-- The loop of `apics_init`; `none` if it is still going after `fuel` rounds. -/
def madtLoop (t : Madt) (lapicId : Byte) : Nat → Word → Option Walk
  | 0, _ => none
  | fuel + 1, offset =>
    if offset + 44 < t.length.setWidth 64 then
      let begin_ := madtSize + offset.toNat
      let sub := madtSubtable t lapicId begin_
      (madtLoop t lapicId fuel (offset + (t (begin_ + 1)).setWidth 64)).map fun rest =>
        ⟨sub.calls ++ rest.calls,
          List.range' 4 4 ++ sub.reads ++ (begin_ + 1) :: rest.reads⟩
    else some ⟨[], List.range' 4 4⟩

/-! ## What the walk is for -/

/-- A subtable begins inside the table. -/
def InTable (t : Madt) (offset : Word) : Prop := offset + 44 < t.length.setWidth 64

/-- The type byte of a subtable. -/
def subtableType (t : Madt) (offset : Word) : Byte := t (madtSize + offset.toNat)

/-- The offset behind a subtable. -/
def subtableEnd (t : Madt) (offset : Word) : Word :=
  offset + (t (madtSize + offset.toNat + 1)).setWidth 64

/-- The subtables from an offset on, by their offsets. -/
inductive SubtableFrom (t : Madt) : Word → Word → Prop where
  | here {start : Word} (h : InTable t start) : SubtableFrom t start start
  | next {start offset : Word} (h : InTable t start)
      (hrest : SubtableFrom t (subtableEnd t start) offset) : SubtableFrom t start offset

/-- The subtables that are I/O APICs. -/
def IoApicFrom (t : Madt) (start offset : Word) : Prop :=
  SubtableFrom t start offset ∧ subtableType t offset = acpiMadtTypeIoApic

/-- What an I/O APIC subtable asks for. -/
def ioApicCall (t : Madt) (offset : Word) : ApicsCall :=
  .ioapicInit ((t.uint32 (madtSize + offset.toNat + 4)).setWidth 64)
    ((t.uint32 (madtSize + offset.toNat + 8)).setWidth 64)

/-- The calls of `ioapic_init` among those of a walk. -/
def Walk.inits (w : Walk) : List ApicsCall := w.calls.filter (· ≠ .foundAp)

/-- A walk from an offset on that is as it should be: it reads the table and nothing behind it, and
    initialises each I/O APIC once, in order. -/
structure Walks (t : Madt) (start : Word) (w : Walk) : Prop where
  inBounds : ∀ i ∈ w.reads, i < t.length.toNat
  inOrder : ∃ offsets : List Word, offsets.Pairwise (· < ·) ∧
    (∀ o, o ∈ offsets ↔ IoApicFrom t start o) ∧ w.inits = offsets.map (ioApicCall t)

/-- How many bytes are read of a subtable. -/
def subtableNeeds (t : Madt) (offset : Word) : Nat :=
  if subtableType t offset = acpiMadtTypeIoApic then 12
  else if subtableType t offset = acpiMadtTypeLocalApic then 8 else 2

/-- A subtable that leads on and whose fields are inside the table. -/
structure SubtableOk (t : Madt) (offset : Word) : Prop where
  length : t (madtSize + offset.toNat + 1) ≠ 0
  fits : madtSize + offset.toNat + subtableNeeds t offset ≤ t.length.toNat

section
variable {t : Madt} {lapicId : Byte} {start offset : Word} {fuel : Nat} {w rest : Walk}

theorem madtLoop_done (h : ¬ InTable t start) :
    madtLoop t lapicId (fuel + 1) start = some ⟨[], List.range' 4 4⟩ := by
  rw [madtLoop]
  exact if_neg h

theorem madtLoop_next (h : InTable t start) : madtLoop t lapicId (fuel + 1) start =
    (madtLoop t lapicId fuel (subtableEnd t start)).map fun rest =>
      ⟨(madtSubtable t lapicId (madtSize + start.toNat)).calls ++ rest.calls,
        List.range' 4 4 ++ (madtSubtable t lapicId (madtSize + start.toNat)).reads ++
          (madtSize + start.toNat + 1) :: rest.reads⟩ := by
  rw [madtLoop]
  exact if_pos h

theorem inTable_lt (h : InTable t start) (hstart : start.toNat < 2 ^ 33) :
    start.toNat + 44 < t.length.toNat := by
  have hlen := t.length.isLt
  unfold InTable at h
  bv_omega

/-- **Without a length the walk is stuck.** -/
theorem madtLoop_stuck (h : InTable t start) (hzero : t (madtSize + start.toNat + 1) = 0)
    (lapicId : Byte) (fuel : Nat) : madtLoop t lapicId fuel start = none := by
  have hend : subtableEnd t start = start := by
    rw [subtableEnd, hzero]
    simp
  induction fuel with
  | zero => rfl
  | succ fuel ih => rw [madtLoop_next h, hend, ih, Option.map_none]

/-- What is read of a subtable ends where it needs to, but for the length byte of one whose type
    is none of the two. -/
theorem mem_reads_subtable (t : Madt) (lapicId : Byte) (start : Word) :
    (∀ i ∈ (madtSubtable t lapicId (madtSize + start.toNat)).reads,
        i + 1 < madtSize + start.toNat + subtableNeeds t start ∨
          i + 1 = madtSize + start.toNat + subtableNeeds t start) ∧
      (subtableNeeds t start ≠ 2 → madtSize + start.toNat + subtableNeeds t start - 1 ∈
        (madtSubtable t lapicId (madtSize + start.toNat)).reads) := by
  unfold madtSubtable subtableNeeds subtableType
  by_cases hio : t (madtSize + start.toNat) = acpiMadtTypeIoApic
  · simp only [if_pos hio, List.mem_cons, List.mem_append, List.mem_range'_1]
    exact ⟨by omega, by omega⟩
  · by_cases hlocal : t (madtSize + start.toNat) = acpiMadtTypeLocalApic
    · by_cases hflag : t.uint32 (madtSize + start.toNat + 4) &&& 1 ≠ 0
      · simp only [if_neg hio, if_pos hlocal, if_pos hflag, List.mem_cons, List.mem_append,
          List.mem_range'_1, List.mem_nil_iff, or_false]
        exact ⟨by omega, by omega⟩
      · simp only [if_neg hio, if_pos hlocal, if_neg hflag, List.mem_cons, List.mem_range'_1]
        exact ⟨by omega, by omega⟩
    · simp only [if_neg hio, if_neg hlocal, List.mem_singleton]
      exact ⟨by omega, by omega⟩

theorem two_le_subtableNeeds (t : Madt) (start : Word) : 2 ≤ subtableNeeds t start := by
  unfold subtableNeeds
  split_ifs <;> omega

/-- **A walk that stays inside the table** has met good subtables only. -/
theorem ok_of_madtLoop (h : madtLoop t lapicId fuel start = some w)
    (hin : ∀ i ∈ w.reads, i < t.length.toNat) (ho : SubtableFrom t start offset) :
    SubtableOk t offset := by
  induction fuel generalizing start w with
  | zero => cases h
  | succ fuel ih =>
    have hinside : InTable t start := by
      cases ho with
      | here h => exact h
      | next h _ => exact h
    rw [madtLoop_next hinside] at h
    obtain ⟨rest, hrest, rfl⟩ := Option.map_eq_some_iff.mp h
    simp only [List.mem_append, List.mem_cons] at hin
    cases ho with
    | here _ =>
      constructor
      · intro hzero
        have hstuck := madtLoop_stuck hinside hzero lapicId (fuel + 1)
        rw [madtLoop_next hinside, hrest] at hstuck
        cases hstuck
      · have hlen := hin _ (Or.inr (Or.inl rfl))
        by_cases htwo : subtableNeeds t offset = 2
        · omega
        · have hlast := hin _ (Or.inl (Or.inr ((mem_reads_subtable t lapicId _).2 htwo)))
          have htwo := two_le_subtableNeeds t offset
          omega
    | next _ hnext =>
      exact ih hrest (fun i hi => hin i (Or.inr (Or.inr hi))) hnext

theorem subtableFrom_iff (hinside : InTable t start) : SubtableFrom t start offset ↔
    offset = start ∨ SubtableFrom t (subtableEnd t start) offset := by
  constructor
  · intro h
    cases h with
    | here _ => exact Or.inl rfl
    | next _ hrest => exact Or.inr hrest
  · intro h
    cases h with
    | inl heq =>
      rw [heq]
      exact .here hinside
    | inr hrest => exact .next hinside hrest

theorem toNat_subtableEnd (hstart : start.toNat < 2 ^ 33) : (subtableEnd t start).toNat =
    start.toNat + (t (madtSize + start.toNat + 1)).toNat := by
  have hbyte := (t (madtSize + start.toNat + 1)).isLt
  rw [subtableEnd, BitVec.toNat_add, BitVec.toNat_setWidth]
  omega

theorem subtableEnd_lt (hinside : InTable t start) (hstart : start.toNat < 2 ^ 33) :
    (subtableEnd t start).toNat < 2 ^ 33 := by
  have hlt := inTable_lt hinside hstart
  have hlen := t.length.isLt
  have hbyte := (t (madtSize + start.toNat + 1)).isLt
  rw [toNat_subtableEnd hstart]
  omega

/-- The subtables lie behind each other. -/
theorem le_of_subtableFrom (h : SubtableFrom t start offset) (hstart : start.toNat < 2 ^ 33) :
    start.toNat ≤ offset.toNat := by
  induction h with
  | here _ => exact le_rfl
  | next hinside _ ih =>
    have hnext := ih (subtableEnd_lt hinside hstart)
    rw [toNat_subtableEnd hstart] at hnext
    omega

/-- The part of the walk in one subtable. -/
theorem inits_subtable (t : Madt) (lapicId : Byte) (start : Word) (rest : Walk)
    (reads : List Nat) :
    Walk.inits ⟨(madtSubtable t lapicId (madtSize + start.toNat)).calls ++ rest.calls, reads⟩ =
      (if subtableType t start = acpiMadtTypeIoApic then [ioApicCall t start] else []) ++
        rest.inits := by
  rw [Walk.inits, Walk.inits, List.filter_append]
  congr 1
  unfold madtSubtable subtableType ioApicCall
  split_ifs <;> simp

theorem walks_done (hlength : madtSize ≤ t.length.toNat) (h : ¬ InTable t start) :
    Walks t start ⟨[], List.range' 4 4⟩ := by
  unfold madtSize at hlength
  constructor
  · intro i hi
    simp only [List.mem_range'_1] at hi
    omega
  · refine ⟨[], List.Pairwise.nil, ?_, rfl⟩
    intro o
    constructor
    · intro ho
      cases ho
    · intro ho
      cases ho.1 with
      | here hinside => exact absurd hinside h
      | next hinside _ => exact absurd hinside h

/-- **One round** in front of a walk that is as it should be. -/
theorem Walks.next (lapicId : Byte) (hrest : Walks t (subtableEnd t start) rest) (hinside : InTable t start)
    (hstart : start.toNat < 2 ^ 33) (hok : SubtableOk t start) :
    Walks t start
      ⟨(madtSubtable t lapicId (madtSize + start.toNat)).calls ++ rest.calls,
        List.range' 4 4 ++ (madtSubtable t lapicId (madtSize + start.toNat)).reads ++
          (madtSize + start.toNat + 1) :: rest.reads⟩ := by
  have hfits := hok.fits
  have htwo := two_le_subtableNeeds t start
  have hlt := inTable_lt hinside hstart
  constructor
  · intro i hi
    simp only [List.mem_append, List.mem_cons, List.mem_range'_1, or_assoc] at hi
    rcases hi with hheader | hsub | rfl | hbehind
    · omega
    · have hmem := (mem_reads_subtable t lapicId start).1 i hsub
      omega
    · omega
    · exact hrest.inBounds i hbehind
  · obtain ⟨offsets, hsorted, hmem, hinits⟩ := hrest.inOrder
    have hbehind (o : Word) (ho : o ∈ offsets) : start < o := by
      have hle := le_of_subtableFrom ((hmem o).mp ho).1 (subtableEnd_lt hinside hstart)
      have hbyte : (t (madtSize + start.toNat + 1)).toNat ≠ 0 := by
        intro hzero
        exact hok.length (BitVec.toNat_inj.mp hzero)
      rw [toNat_subtableEnd hstart] at hle
      rw [BitVec.lt_def]
      omega
    by_cases hio : subtableType t start = acpiMadtTypeIoApic
    · refine ⟨start :: offsets, List.pairwise_cons.mpr ⟨hbehind, hsorted⟩, ?_, ?_⟩
      · intro o
        rw [List.mem_cons, hmem, IoApicFrom, IoApicFrom, subtableFrom_iff hinside]
        constructor
        · intro h
          cases h with
          | inl heq => exact ⟨Or.inl heq, heq ▸ hio⟩
          | inr h => exact ⟨Or.inr h.1, h.2⟩
        · intro h
          cases h.1 with
          | inl heq => exact Or.inl heq
          | inr hfrom => exact Or.inr ⟨hfrom, h.2⟩
      · rw [inits_subtable, if_pos hio, hinits]
        rfl
    · refine ⟨offsets, hsorted, ?_, ?_⟩
      · intro o
        rw [hmem, IoApicFrom, IoApicFrom, subtableFrom_iff hinside]
        constructor
        · intro h
          exact ⟨Or.inr h.1, h.2⟩
        · intro h
          cases h.1 with
          | inl heq => exact absurd (heq ▸ h.2) hio
          | inr hfrom => exact ⟨hfrom, h.2⟩
      · rw [inits_subtable, if_neg hio, hinits]
        rfl

/-- **Where all subtables are good the walk is as it should be.** The induction is on what is left
    of the table. -/
theorem madtLoop_of_ok (lapicId : Byte) (hlength : madtSize ≤ t.length.toNat)
    (hstart : start.toNat < 2 ^ 33) (hok : ∀ o, SubtableFrom t start o → SubtableOk t o) :
    ∃ fuel w, madtLoop t lapicId fuel start = some w ∧ Walks t start w := by
  generalize hleft : t.length.toNat - start.toNat = left
  induction left using Nat.strong_induction_on generalizing start with
  | _ left ih =>
    by_cases hinside : InTable t start
    · have hself : SubtableOk t start := hok start (.here hinside)
      have hlt := inTable_lt hinside hstart
      have hbyte : (t (madtSize + start.toNat + 1)).toNat ≠ 0 := by
        intro hzero
        exact hself.length (BitVec.toNat_inj.mp hzero)
      have hend := toNat_subtableEnd (t := t) hstart
      obtain ⟨fuel, rest, hrest, hwalks⟩ := ih (t.length.toNat - (subtableEnd t start).toNat)
        (by omega) (subtableEnd_lt hinside hstart) (fun o ho => hok o (.next hinside ho)) rfl
      refine ⟨fuel + 1, _, ?_, hwalks.next lapicId hinside hstart hself⟩
      rw [madtLoop_next hinside, hrest, Option.map_some]
    · exact ⟨1, _, madtLoop_done hinside, walks_done hlength hinside⟩

end

/-- **The walk over the MADT** ends, stays in the table and initialises each I/O APIC once, in
    order, exactly if every subtable that it comes to has a length and has the fields that are read
    of it inside the table. -/
theorem madt_walk (t : Madt) (lapicId : Byte) (hlength : madtSize ≤ t.length.toNat) :
    (∃ fuel w, madtLoop t lapicId fuel 0 = some w ∧ Walks t 0 w) ↔
      ∀ o, SubtableFrom t 0 o → SubtableOk t o := by
  constructor
  · intro h o ho
    obtain ⟨fuel, w, hloop, hwalks⟩ := h
    exact ok_of_madtLoop hloop hwalks.inBounds ho
  · intro hok
    exact madtLoop_of_ok lapicId hlength (by decide) hok

/-- A table with one I/O APIC, at 0xfec00000. -/
def ioApicMadt : Madt := fun i =>
  if i = 4 then 56 else if i = 44 then 1 else if i = 45 then 12
  else if i = 50 then 0xc0 else if i = 51 then 0xfe else 0

theorem madt_walk_of_ioApic : ∃ fuel w, madtLoop ioApicMadt 0 fuel 0 = some w ∧
    Walks ioApicMadt 0 w := by
  apply (madt_walk ioApicMadt 0 (by decide)).mpr
  intro o ho
  cases ho with
  | here _ => exact ⟨by decide, by decide⟩
  | next _ hrest =>
    have hend : ¬ InTable ioApicMadt (subtableEnd ioApicMadt 0) := by
      unfold InTable
      decide
    cases hrest with
    | here h => exact absurd h hend
    | next h _ => exact absurd h hend

/-- A table of 46 bytes whose only subtable has the length 0. -/
theorem madt_walk_stuck :
    let t : Madt := fun i => if i = 4 then 46 else if i = 44 then 2 else 0
    t.length = 46 ∧ (∀ fuel, madtLoop t 0 fuel 0 = none) ∧
      ¬ ∃ fuel w, madtLoop t 0 fuel 0 = some w ∧ Walks t 0 w := by
  intro t
  have hinside : InTable t 0 := by
    unfold InTable
    decide
  have hstuck (fuel : Nat) : madtLoop t 0 fuel 0 = none :=
    madtLoop_stuck hinside (by decide) 0 fuel
  refine ⟨by decide, hstuck, ?_⟩
  intro h
  obtain ⟨fuel, w, hloop, -⟩ := h
  rw [hstuck fuel] at hloop
  cases hloop

end Refk
