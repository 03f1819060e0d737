import Refk.Klib.Kmem
import Refk.Lib.Bytes

/-!
# `kernel/multiboot.s` — the memory map of the boot loader

`header_extract` walks the Multiboot memory map and copies base and length of every available
entry to `bootstrap_map`, where `kmem_init` finds them as pairs of `uint64_t`, with a pair of zeros
at the end. It runs in 32-bit mode: registers are 32 bits wide, and a 64-bit number is copied in two
halves.
-/

namespace Refk

open Lib

/-- A double word of memory. -/
def readDword (m : Nat → Byte) (a : BitVec 32) : BitVec 32 := BitVec.ofNat 32 (ofLe (load m a.toNat 4))

/-- `stosd`: the memory and `edi` after it. -/
def stosd (m : Nat → Byte) (edi eax : BitVec 32) : (Nat → Byte) × BitVec 32 :=
  (store m edi.toNat (toLe 4 eax.toNat), edi + 4)

/-- The four `mov`/`stosd` pairs of `.mem_loop`. -/
def copyRegion (m : Nat → Byte) (esi edi : BitVec 32) : (Nat → Byte) × BitVec 32 :=
  let (m, edi) := stosd m edi (readDword m (esi + 4))
  let (m, edi) := stosd m edi (readDword m (esi + 8))
  let (m, edi) := stosd m edi (readDword m (esi + 12))
  stosd m edi (readDword m (esi + 16))

/-- `.mem_loop`, up to `.mem_loop_end`. -/
def memLoop (ecx : BitVec 32) : Nat → (Nat → Byte) → BitVec 32 → BitVec 32 →
    Option ((Nat → Byte) × BitVec 32)
  | 0, _, _, _ => none
  | fuel + 1, m, esi, edi =>
    if ecx - esi = 0 then some (m, edi)
    else
      let (m, edi) := if readDword m (esi + 20) - 1 = 0 then copyRegion m esi edi else (m, edi)
      let esi := esi + readDword m esi
      memLoop ecx fuel m (esi + 4) edi

/-- `rep stosd` of zeros -/
def repStosd : Nat → (Nat → Byte) → BitVec 32 → (Nat → Byte)
  | 0, m, _ => m
  | ecx + 1, m, edi =>
    let (m, edi) := stosd m edi 0
    repStosd ecx m edi

/-- `header_extract`, with the Multiboot information at `ebx`. -/
def headerExtract (bootstrapMap ebx : BitVec 32) (fuel : Nat) (m : Nat → Byte) :
    Option (Nat → Byte) := do
  let ecx := readDword m (ebx + 44)
  let esi := readDword m (ebx + 48)
  let (m, edi) ← memLoop (ecx + esi) fuel m esi bootstrapMap
  return repStosd 4 m edi

/-- `n` pairs of `uint64_t` from an address on. -/
def regionsFrom (m : Nat → Byte) : Nat → Nat → List (Word × Word)
  | _, 0 => []
  | a, n + 1 => (BitVec.ofNat 64 (ofLe (load m a 8)), BitVec.ofNat 64 (ofLe (load m (a + 8) 8))) ::
    regionsFrom m (a + 16) n

/-- An entry of the memory map, without its `size` field. -/
structure MapEntry where
  base : Word
  length : Word
  type : BitVec 32

/-- Memory from `a` to `stop` is a memory map: the entries follow one another, each as long as its
    `size` says. -/
def MapAt (m : Nat → Byte) : Nat → List MapEntry → Nat → Prop
  | a, [], stop => a = stop
  | a, e :: es, stop => ∃ size : Nat, 20 ≤ size ∧
    load m a 24 = toLe 4 size ++ (toLe 8 e.base.toNat ++ toLe 8 e.length.toNat) ++
      toLe 4 e.type.toNat ∧
    MapAt m (a + size + 4) es stop

/-- Base and length of the available entries. -/
def availableRegions (es : List MapEntry) : List (Word × Word) :=
  (es.filter fun e => e.type = 1).map fun e => (e.base, e.length)

/-- The bytes of pairs of `uint64_t`. -/
def regionBytes (rs : List (Word × Word)) : List Byte :=
  rs.flatMap fun r => toLe 8 r.1.toNat ++ toLe 8 r.2.toNat

section
variable {m : Nat → Byte} {a b n stop : Nat} {es : List MapEntry} {rs : List (Word × Word)}
  {xs ys : List Byte}

/-! ## Areas -/

theorem load_add (m : Nat → Byte) (a i j : Nat) : load m a (i + j) = load m a i ++ load m (a + i) j := by
  rw [load, List.range_add, List.map_append, List.map_map]
  congr 1
  refine List.map_congr_left fun k _ => ?_
  rw [Function.comp_apply, Nat.add_assoc]

theorem load_store_self : load (store m a xs) a xs.length = xs := by
  refine List.ext_getElem (by simp) fun i hi hi' => ?_
  rw [getElem_load, store_add hi']

/-- What is off the bytes written is as before. -/
theorem load_store_of_disjoint (h : b + n ≤ a ∨ a + xs.length ≤ b) :
    load (store m a xs) b n = load m b n := by
  refine List.map_congr_left fun i hi => ?_
  have hi := List.mem_range.mp hi
  rcases h with h | h
  · exact store_of_lt (by omega)
  · exact store_of_le (by omega)

theorem store_append (m : Nat → Byte) (a : Nat) (xs ys : List Byte) :
    store (store m a xs) (a + xs.length) ys = store m a (xs ++ ys) := by
  funext j
  by_cases hlt : j < a
  · rw [store_of_lt (by omega), store_of_lt hlt, store_of_lt hlt]
  obtain ⟨i, rfl⟩ := Nat.exists_eq_add_of_le (Nat.le_of_not_lt hlt)
  by_cases hx : i < xs.length
  · rw [store_of_lt (by omega), store_add hx, store_add (by rw [List.length_append]; omega),
      List.getElem_append_left hx]
  · obtain ⟨k, rfl⟩ := Nat.exists_eq_add_of_le (Nat.le_of_not_lt hx)
    by_cases hy : k < ys.length
    · rw [← Nat.add_assoc, store_add hy, Nat.add_assoc,
        store_add (by rw [List.length_append]; omega), List.getElem_append_right (by omega)]
      simp
    · rw [store_of_le (by omega), store_of_le (by omega),
        store_of_le (by rw [List.length_append]; omega)]

theorem length_regionBytes (rs : List (Word × Word)) : (regionBytes rs).length = 16 * rs.length := by
  induction rs with
  | nil => rfl
  | cons r rs ih =>
    rw [regionBytes, List.flatMap_cons, List.length_append, ← regionBytes, ih]
    simp
    omega

theorem toLe_readDword (m : Nat → Byte) (a : BitVec 32) :
    toLe 4 (readDword m a).toNat = load m a.toNat 4 := by
  have hlt := ofLe_lt (load m a.toNat 4)
  rw [length_load] at hlt
  rw [readDword, BitVec.toNat_ofNat, Nat.mod_eq_of_lt (by simpa using hlt)]
  have heq := toLe_ofLe (load m a.toNat 4)
  rwa [length_load] at heq

/-- A pair is read as it was written. -/
theorem regionsFrom_of_bytes (h : load m a (16 * rs.length) = regionBytes rs) (n : Nat) :
    regionsFrom m a (rs.length + n) = rs ++ regionsFrom m (a + 16 * rs.length) n := by
  induction rs generalizing a with
  | nil => rw [List.length_nil, Nat.zero_add, Nat.mul_zero, Nat.add_zero, List.nil_append]
  | cons r rs ih =>
    have hsplit : load m a (16 * (r :: rs).length) =
        (load m a 8 ++ load m (a + 8) 8) ++ load m (a + 16) (16 * rs.length) := by
      rw [List.length_cons, show 16 * (rs.length + 1) = 8 + 8 + 16 * rs.length by omega, load_add,
        load_add]
    rw [hsplit, regionBytes, List.flatMap_cons, ← regionBytes] at h
    obtain ⟨hpair, hrest⟩ := List.append_inj h (by simp)
    obtain ⟨hbase, hlen⟩ := List.append_inj hpair (by simp)
    have hword : ∀ w : Word, BitVec.ofNat 64 (ofLe (toLe 8 w.toNat)) = w := fun w => by
      rw [ofLe_toLe_of_lt (show w.toNat < 256 ^ 8 from w.isLt), BitVec.ofNat_toNat,
        BitVec.setWidth_eq]
    rw [List.length_cons, Nat.add_right_comm, regionsFrom, hbase, hlen, hword, hword, ih hrest,
      show a + 16 + 16 * rs.length = a + 16 * (rs.length + 1) by omega]
    rfl

/-! ## The loop -/

theorem toNat_add_ofNat {a : BitVec 32} {n : Nat} (h : a.toNat + n < 2 ^ 32) :
    (a + BitVec.ofNat 32 n).toNat = a.toNat + n := by
  rw [BitVec.toNat_add, BitVec.toNat_ofNat, Nat.mod_eq_of_lt (show n < 2 ^ 32 by omega),
    Nat.mod_eq_of_lt h]

theorem sub_eq_zero_dword {x y : BitVec 32} : x - y = 0 ↔ x = y := by bv_omega

theorem stosd_eq (m : Nat → Byte) (edi eax : BitVec 32) (h : edi.toNat + 4 < 2 ^ 32) :
    (stosd m edi eax).1 = store m edi.toNat (toLe 4 eax.toNat) ∧
      (stosd m edi eax).2.toNat = edi.toNat + 4 := ⟨rfl, toNat_add_ofNat (n := 4) h⟩

/-- One more double word of a copy from `s` to `e`. -/
theorem copyDword {m' : Nat → Byte} {src edi : BitVec 32} {s e j : Nat}
    (hm : m' = store m e (load m s j)) (hedi : edi.toNat = e + j) (hsrc : src.toNat = s + j)
    (hdst : e + j + 4 < 2 ^ 32) (hoff : s + j + 4 ≤ e ∨ e ≤ s) :
    (stosd m' edi (readDword m' src)).1 = store m e (load m s (j + 4)) ∧
      (stosd m' edi (readDword m' src)).2.toNat = e + (j + 4) := by
  obtain ⟨hmem, hnext⟩ := stosd_eq m' edi (readDword m' src) (by omega)
  constructor
  · have hread : load m' (s + j) 4 = load m (s + j) 4 := by
      rw [hm]
      refine load_store_of_disjoint ?_
      rw [length_load]
      omega
    have happend := store_append m e (load m s j) (load m (s + j) 4)
    rw [length_load] at happend
    rw [hmem, toLe_readDword, hsrc, hread, hedi, hm, happend, load_add]
  · rw [hnext, hedi]
    omega

/-- The copy of an entry that is off the copy. -/
theorem copyRegion_spec (m : Nat → Byte) (esi edi : BitVec 32) (hsrc : esi.toNat + 20 < 2 ^ 32)
    (hdst : edi.toNat + 16 < 2 ^ 32)
    (hoff : esi.toNat + 20 ≤ edi.toNat ∨ edi.toNat ≤ esi.toNat + 4) :
    (copyRegion m esi edi).1 = store m edi.toNat (load m (esi.toNat + 4) 16) ∧
      (copyRegion m esi edi).2.toNat = edi.toNat + 16 := by
  have hadd : ∀ n, n ≤ 20 → (esi + BitVec.ofNat 32 n).toNat = esi.toNat + n := fun n hn =>
    toNat_add_ofNat (by omega)
  have h₀ : m = store m edi.toNat (load m (esi.toNat + 4) 0) := store_nil.symm
  obtain ⟨h₁, hedi₁⟩ := copyDword h₀ rfl (hadd 4 (by omega)) (by omega) (by omega)
  obtain ⟨h₂, hedi₂⟩ := copyDword h₁ hedi₁ (hadd 8 (by omega)) (by omega) (by omega)
  obtain ⟨h₃, hedi₃⟩ := copyDword h₂ hedi₂ (hadd 12 (by omega)) (by omega) (by omega)
  exact copyDword h₃ hedi₃ (hadd 16 (by omega)) (by omega) (by omega)

theorem MapAt.le (h : MapAt m a es stop) : a ≤ stop := by
  induction es generalizing a with
  | nil => exact h.le
  | cons e es ih =>
    obtain ⟨size, -, -, hrest⟩ := h
    have := ih hrest
    omega

/-- A write off the map. -/
theorem MapAt.store (h : MapAt m a es stop) (hoff : b + xs.length ≤ a ∨ stop ≤ b) :
    MapAt (store m b xs) a es stop := by
  induction es generalizing a with
  | nil => exact h
  | cons e es ih =>
    obtain ⟨size, hsize, hbytes, hrest⟩ := h
    have hle := hrest.le
    refine ⟨size, hsize, ?_, ih hrest (by omega)⟩
    rw [load_store_of_disjoint (by omega), hbytes]

/-- The fields of an entry, as the loop reads them. -/
theorem entry_fields {e : MapEntry} {size : Nat} (h : load m a 24 =
      toLe 4 size ++ (toLe 8 e.base.toNat ++ toLe 8 e.length.toNat) ++ toLe 4 e.type.toNat) :
    load m a 4 = toLe 4 size ∧
      load m (a + 4) 16 = toLe 8 e.base.toNat ++ toLe 8 e.length.toNat ∧
      load m (a + 20) 4 = toLe 4 e.type.toNat := by
  rw [show 24 = 4 + 16 + 4 from rfl, load_add, load_add] at h
  obtain ⟨hfront, htype⟩ := List.append_inj h (by simp)
  obtain ⟨hsize, hregion⟩ := List.append_inj hfront (by simp)
  exact ⟨hsize, hregion, htype⟩

theorem readDword_of_load {x : BitVec 32} {n : Nat} (h : load m x.toNat 4 = toLe 4 n)
    (hn : n < 2 ^ 32) : (readDword m x).toNat = n := by
  rw [readDword, h, ofLe_toLe_of_lt (show n < 256 ^ 4 by omega), BitVec.toNat_ofNat,
    Nat.mod_eq_of_lt hn]

/-- **`.mem_loop`** copies the available entries that are left. -/
theorem memLoop_spec {ecx esi edi : BitVec 32} {fuel : Nat} (hmap : MapAt m esi.toNat es ecx.toNat)
    (hfuel : es.length < fuel)
    (hdst : edi.toNat + 16 * (availableRegions es).length < 2 ^ 32)
    (hoff : edi.toNat + 16 * (availableRegions es).length ≤ esi.toNat ∨ ecx.toNat ≤ edi.toNat) :
    ∃ edi', memLoop ecx fuel m esi edi =
        some (store m edi.toNat (regionBytes (availableRegions es)), edi') ∧
      edi'.toNat = edi.toNat + 16 * (availableRegions es).length := by
  induction es generalizing m esi edi fuel with
  | nil =>
    obtain ⟨fuel, rfl⟩ := Nat.exists_eq_add_of_lt hfuel
    have heq : esi = ecx := BitVec.eq_of_toNat_eq hmap
    refine ⟨edi, ?_, rfl⟩
    rw [List.length_nil, Nat.zero_add, memLoop, if_pos (sub_eq_zero_dword.mpr heq.symm)]
    exact congrArg some (Prod.ext store_nil.symm rfl)
  | cons e es ih =>
    obtain ⟨fuel, rfl⟩ : ∃ k, fuel = k + 1 := ⟨fuel - 1, by omega⟩
    obtain ⟨size, hsize, hbytes, hrest⟩ := hmap
    obtain ⟨hsizeAt, hregionAt, htypeAt⟩ := entry_fields hbytes
    have hle := hrest.le
    have hstop := ecx.isLt
    have hne : ¬ ecx - esi = 0 := fun h => by
      have heq : ecx = esi := sub_eq_zero_dword.mp h
      rw [heq] at hle
      omega
    have h20 : (esi + 20).toNat = esi.toNat + 20 := toNat_add_ofNat (n := 20) (by omega)
    have htype : readDword m (esi + 20) = e.type :=
      BitVec.eq_of_toNat_eq (readDword_of_load (h20 ▸ htypeAt) e.type.isLt)
    -- where the next entry is, after writes off this one
    have hnext : ∀ m' : Nat → Byte, load m' esi.toNat 4 = load m esi.toNat 4 →
        (esi + readDword m' esi + 4).toNat = esi.toNat + size + 4 := by
      intro m' hsame
      have hread : (readDword m' esi).toNat = size :=
        readDword_of_load (hsame.trans hsizeAt) (by omega)
      have hsum : (esi + readDword m' esi).toNat = esi.toNat + size := by
        rw [BitVec.toNat_add, hread, Nat.mod_eq_of_lt (by omega)]
      have h4 := toNat_add_ofNat (a := esi + readDword m' esi) (n := 4) (by omega)
      rw [hsum] at h4
      exact h4
    rw [memLoop, if_neg hne, htype]
    by_cases hfree : e.type = 1
    · have havail : availableRegions (e :: es) = (e.base, e.length) :: availableRegions es := by
        simp [availableRegions, hfree]
      rw [havail, List.length_cons] at hdst hoff
      obtain ⟨hcopy, hedi⟩ := copyRegion_spec m esi edi (by omega)
        (by omega) (by omega)
      have hlen : (load m (esi.toNat + 4) 16).length = 16 := length_load
      have hhere := hnext (copyRegion m esi edi).1 (by
        rw [hcopy]
        exact load_store_of_disjoint (by omega))
      have hrest' : MapAt (copyRegion m esi edi).1
          (esi + readDword (copyRegion m esi edi).1 esi + 4).toNat es ecx.toNat := by
        rw [hhere, hcopy]
        exact hrest.store (by omega)
      obtain ⟨edi', hloop, hedi'⟩ := @ih _ _ (copyRegion m esi edi).2 fuel hrest'
        (by simpa using hfuel) (by omega) (by omega)
      refine ⟨edi', ?_, ?_⟩
      · rw [if_pos (by rw [hfree]; rfl)]
        refine hloop.trans (congrArg some (Prod.ext ?_ rfl))
        have happend := store_append m edi.toNat (load m (esi.toNat + 4) 16)
          (regionBytes (availableRegions es))
        rw [hlen] at happend
        change Lib.store _ _ _ = _
        rw [hcopy, hedi, happend, hregionAt, havail]
        rfl
      · rw [hedi', hedi, havail, List.length_cons]
        omega
    · have havail : availableRegions (e :: es) = availableRegions es := by
        rw [availableRegions, List.filter_cons_of_neg (by simpa using hfree), availableRegions]
      rw [havail] at hdst hoff ⊢
      have hskip : ¬ e.type - 1 = 0 := fun h => hfree (sub_eq_zero_dword.mp h)
      rw [if_neg hskip]
      have hhere := hnext m rfl
      exact ih (by rw [hhere]; exact hrest) (by simpa using hfuel) (by omega) (by omega)

theorem repStosd_zero {edi : BitVec 32} (n : Nat) (h : edi.toNat + 4 * n < 2 ^ 32) :
    repStosd n m edi = store m edi.toNat (List.replicate (4 * n) 0) := by
  induction n generalizing m edi with
  | zero => exact store_nil.symm
  | succ n ih =>
    obtain ⟨hmem, hnext⟩ := stosd_eq m edi 0 (by omega)
    have hzero : toLe 4 (0 : BitVec 32).toNat = List.replicate 4 0 := by decide
    rw [show repStosd (n + 1) m edi = repStosd n (stosd m edi 0).1 (stosd m edi 0).2 from rfl,
      ih (by omega), hmem, hnext, hzero]
    have happend := store_append m edi.toNat (List.replicate 4 (0 : Byte))
      (List.replicate (4 * n) 0)
    rw [List.length_replicate] at happend
    rw [happend, List.replicate_append_replicate]
    congr 2
    omega

/-- **`header_extract`**: from any map that tiles its buffer, and is off `bootstrap_map`, the
    available regions and a pair of zeros. -/
theorem headerExtract_spec {bootstrapMap ebx : BitVec 32} {fuel : Nat}
    (hstop : (readDword m (ebx + 48)).toNat + (readDword m (ebx + 44)).toNat = stop)
    (hlt : stop < 2 ^ 32)
    (hmap : MapAt m (readDword m (ebx + 48)).toNat es stop) (hfuel : es.length < fuel)
    (hfits : 16 * ((availableRegions es).length + 1) ≤ n)
    (hroom : bootstrapMap.toNat + n < 2 ^ 32)
    (hoff : bootstrapMap.toNat + n ≤ (readDword m (ebx + 48)).toNat ∨
      stop ≤ bootstrapMap.toNat) :
    ∃ m', headerExtract bootstrapMap ebx fuel m = some m' ∧
      ∀ k, ∃ rest, regionsFrom m' bootstrapMap.toNat ((availableRegions es).length + 1 + k) =
        availableRegions es ++ (0, 0) :: rest := by
  have hecx : (readDword m (ebx + 44) + readDword m (ebx + 48)).toNat = stop := by
    rw [BitVec.toNat_add, Nat.mod_eq_of_lt (by omega)]
    omega
  rw [← hecx] at hmap
  obtain ⟨edi', hloop, hedi⟩ := @memLoop_spec m es _ _ bootstrapMap fuel hmap hfuel (by omega) (by omega)
  refine ⟨repStosd 4 (store m bootstrapMap.toNat (regionBytes (availableRegions es))) edi', ?_,
    fun k => ⟨regionsFrom (store m bootstrapMap.toNat
    (regionBytes (availableRegions es ++ [(0, 0)])))
    (bootstrapMap.toNat + 16 * (availableRegions es ++ [(0, 0)]).length) k, ?_⟩⟩
  · simp only [headerExtract, hloop, Option.bind_eq_bind, Option.bind_some]
    rfl
  · have hbytes : repStosd 4 (store m bootstrapMap.toNat (regionBytes (availableRegions es))) edi' =
        store m bootstrapMap.toNat (regionBytes (availableRegions es ++ [(0, 0)])) := by
      have happend := store_append m bootstrapMap.toNat
        (regionBytes (availableRegions es)) (List.replicate (4 * 4) 0)
      rw [length_regionBytes] at happend
      have hzeros : regionBytes [(0, 0)] = List.replicate (4 * 4) 0 := by decide
      have hsplit : regionBytes (availableRegions es ++ [(0, 0)]) =
          regionBytes (availableRegions es) ++ regionBytes [(0, 0)] := List.flatMap_append
      rw [repStosd_zero 4 (by omega), hedi, happend, hsplit, hzeros]
    rw [hbytes]
    have hregions := @regionsFrom_of_bytes (store m bootstrapMap.toNat
      (regionBytes (availableRegions es ++ [(0, 0)]))) bootstrapMap.toNat
      (availableRegions es ++ [(0, 0)])
      (by rw [← length_regionBytes, load_store_self]) k
    rw [List.length_append, List.length_singleton] at hregions
    rw [hregions, List.append_assoc]
    simp

end

end Refk
