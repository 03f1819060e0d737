import Refk.Scheduler.MmanExact

/-!
# Looking an address up

`mman_get_phy` and `mman_check_any_mapped` walk the tables on their own. `LooksUp` is what the
answers of the first have to do with those of the second; it fails behind complete tables, where
`mman_get_phy` takes an entry for a frame without asking whether it is present.
-/

namespace Refk

/-- **The lookup agrees with the check** on the page that has the address. -/
structure LooksUp (s : Mman) (id : Nat) (address : Word) : Prop where
  unknown : s.rootAddress id = 0 → mmanGetPhy s id address = -1
  unmapped : mmanCheckAnyMapped s id (address &&& pageMask) 0x1000 = 0 →
    mmanGetPhy s id address = 0
  mapped : mmanCheckAnyMapped s id (address &&& pageMask) 0x1000 = 1 →
    ∃ entry, leafEntry s.phys (s.rootAddress id) address = some entry ∧ Present entry ∧
      (WalksTables s.phys (s.rootAddress id) address →
        mapping s.phys (s.rootAddress id) address = some entry) ∧
      (mmanGetPhy s id address).toNat =
        (entry &&& kmemFrameMask).toNat + address.toNat % 0x1000

/-- A page that a known root does not map, although it has all the tables for it, is the first
    one of an entry without a frame. -/
def AbsentIsZero (s : Mman) (id : Nat) (address : Word) : Prop :=
  s.rootAddress id ≠ 0 → ∀ entry, leafEntry s.phys (s.rootAddress id) address = some entry →
    ¬ Present entry → entry &&& kmemFrameMask = 0 ∧ address &&& 0xfff = 0

section
variable {s : Mman} {id : Nat} {m : Phys} {root address entry : Word}

/-- `mman_check_any_mapped` of a single page is about its entry. -/
theorem mmanCheckAnyMapped_page (hroot : s.rootAddress id ≠ 0) :
    mmanCheckAnyMapped s id (address &&& pageMask) 0x1000 =
      if ∃ entry, leafEntry s.phys (s.rootAddress id) address = some entry ∧ Present entry then 1
      else 0 := by
  have haligned : (address &&& pageMask) &&& 0xfff = 0 :=
    and_fff_eq_zero.mpr (pageAligned_and address)
  have hsize : (0x1000 : Word) &&& 0xfff = 0 := by decide
  have hpages : pageOffsets 0x1000 = [0] := by decide
  have hany : ((pageOffsets 0x1000).any fun off =>
      isMapped s.phys (s.rootAddress id) ((address &&& pageMask) + off)) =
      isMapped s.phys (s.rootAddress id) (address &&& pageMask) := by
    rw [hpages, List.any_cons, List.any_nil, Bool.or_false]
    simp
  have hmapped : isMapped s.phys (s.rootAddress id) (address &&& pageMask) = true ↔
      ∃ entry, leafEntry s.phys (s.rootAddress id) address = some entry ∧ Present entry := by
    unfold isMapped leafEntry
    cases kmemPagingAddr s.phys (s.rootAddress id) (address &&& pageMask) 3 with
    | none => simp
    | some eaddr => simp [Present]
  simp only [mmanCheckAnyMapped, if_neg hroot, haligned, hsize, hany, hmapped, ne_eq,
    not_true_eq_false, if_false]

/-- `mman_get_phy` does not ask whether the entry is present. -/
theorem mmanGetPhy_eq (hroot : s.rootAddress id ≠ 0) :
    mmanGetPhy s id address =
      match leafEntry s.phys (s.rootAddress id) address with
      | none => 0
      | some entry => (entry &&& kmemFrameMask) ||| (address &&& 0xfff) := by
  unfold mmanGetPhy leafEntry
  rw [if_neg hroot]
  cases kmemPagingAddr s.phys (s.rootAddress id) (address &&& pageMask) 3 with
  | none => rfl
  | some eaddr => rfl

/-- A frame and an offset into it do not overlap. -/
theorem toNat_frame_or (entry address : Word) :
    ((entry &&& kmemFrameMask) ||| (address &&& 0xfff)).toNat =
      (entry &&& kmemFrameMask).toNat + address.toNat % 0x1000 := by
  have hdisjoint : (entry &&& kmemFrameMask) &&& (address &&& 0xfff) = 0 := by
    have hmask : kmemFrameMask &&& (0xfff : Word) = 0 := by decide
    rw [BitVec.and_comm address, BitVec.and_assoc, ← BitVec.and_assoc kmemFrameMask, hmask]
    simp
  have hlt : (entry &&& kmemFrameMask).toNat + (address &&& 0xfff).toNat < 2 ^ 64 := by
    have haligned := (isFrame_and entry).aligned
    have hoff := toNat_and_fff address
    rw [PageAligned] at haligned
    omega
  rw [← BitVec.add_eq_or_of_and_eq_zero _ _ hdisjoint, BitVec.toNat_add, Nat.mod_eq_of_lt hlt,
    toNat_and_fff]

/-- **`mman_get_phy` agrees with `mman_check_any_mapped`** exactly where an absent entry behind
    complete tables gives `0` by itself. -/
theorem mmanGetPhy_agrees (s : Mman) (id : Nat) (address : Word) :
    LooksUp s id address ↔ AbsentIsZero s id address := by
  constructor
  · intro h hroot entry hleaf habsent
    have hcheck : mmanCheckAnyMapped s id (address &&& pageMask) 0x1000 = 0 := by
      rw [mmanCheckAnyMapped_page hroot, if_neg]
      intro ⟨entry', hleaf', hp⟩
      obtain rfl := Option.some.inj (hleaf.symm.trans hleaf')
      exact habsent hp
    have hzero := h.unmapped hcheck
    rw [mmanGetPhy_eq hroot, hleaf] at hzero
    exact BitVec.or_eq_zero_iff.mp hzero
  · intro h
    by_cases hroot : s.rootAddress id = 0
    · have hcheck : mmanCheckAnyMapped s id (address &&& pageMask) 0x1000 = -1 := by
        simp only [mmanCheckAnyMapped, if_pos hroot]
      refine ⟨fun _ => ?_, fun h₀ => ?_, fun h₁ => ?_⟩
      · simp only [mmanGetPhy, if_pos hroot]
      · exact absurd (hcheck.symm.trans h₀) (by decide)
      · exact absurd (hcheck.symm.trans h₁) (by decide)
    · refine ⟨fun h₀ => absurd h₀ hroot, fun h₀ => ?_, fun h₁ => ?_⟩
      · rw [mmanGetPhy_eq hroot]
        cases hleaf : leafEntry s.phys (s.rootAddress id) address with
        | none => rfl
        | some entry =>
          have habsent : ¬ Present entry := by
            intro hp
            rw [mmanCheckAnyMapped_page hroot, if_pos ⟨entry, hleaf, hp⟩] at h₀
            exact absurd h₀ (by decide)
          exact BitVec.or_eq_zero_iff.mpr (h hroot entry hleaf habsent)
      · have hmapped : ∃ entry, leafEntry s.phys (s.rootAddress id) address = some entry ∧
            Present entry := by
          by_contra hnot
          rw [mmanCheckAnyMapped_page hroot, if_neg hnot] at h₁
          exact absurd h₁ (by decide)
        obtain ⟨entry, hleaf, hp⟩ := hmapped
        refine ⟨entry, hleaf, hp, fun hwalk => mapping_of_leafEntry hwalk hleaf hp, ?_⟩
        rw [mmanGetPhy_eq hroot, hleaf]
        exact toNat_frame_or entry address

end

/-- The second page of a root that has the tables for it is not mapped, and yet its sixth byte
    has a physical address. -/
theorem mmanGetPhy_of_absent :
    mmanCheckAnyMapped twoRootsMman 0x1001 (0x1005 &&& pageMask) 0x1000 = 0 ∧
      mmanGetPhy twoRootsMman 0x1001 0x1005 = 5 ∧ ¬ LooksUp twoRootsMman 0x1001 0x1005 := by
  have hcheck : mmanCheckAnyMapped twoRootsMman 0x1001 (0x1005 &&& pageMask) 0x1000 = 0 := by
    decide
  have hphy : mmanGetPhy twoRootsMman 0x1001 0x1005 = 5 := by decide
  refine ⟨hcheck, hphy, fun h => ?_⟩
  exact absurd (hphy.symm.trans (h.unmapped hcheck)) (by decide)

end Refk
