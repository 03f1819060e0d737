import Refk.Scheduler.MmanExact
import Refk.Scheduler.MmanFrame
import Refk.Scheduler.Request

/-!
# Root id 0

A root id of `0` in a request stands for the root of the task that sends it. Each handler resolves
it for itself, and `SCHED_MAP_MIRROR` does so for the one of its two roots only: the other one is
looked up as it is, and there is no root `0`.
-/

namespace Refk

open Lib

/-- The words of a request that are root ids. -/
def rootFields : Option SchedType → List Nat
  | some .mapAnonymous => [0]
  | some .mapPhysical => [0]
  | some .mapMirror => [0, 2]
  | some .unmap => [0]
  | some .spawn => [0]
  | _ => []

/-- `l'` is `l`, but that some of the zeros among its root ids are `own`. -/
structure Resolves (own : Word) (l l' : Locals) : Prop where
  status : l'.status = l.status
  roots : ∀ k ∈ rootFields (SchedType.ofByte l.type),
    l'.arg k = l.arg k ∨ l.arg k = 0 ∧ l'.arg k = own
  rest : ∀ i, (∀ k ∈ rootFields (SchedType.ofByte l.type), i < 16 + 8 * k ∨ 24 + 8 * k ≤ i) →
    l'.input i = l.input i

/-- The root that an id stands for. -/
def ownOr (own : Nat) (id : Word) : Nat := if id = 0 then own else id.toNat

/-- The two scans of `mman_mirror` refuse the request. -/
def ScansRefuse (s : Mman) (id : Nat) (address : Word) (oroot : Nat) (oaddress size : Word) :
    Prop :=
  mmanCheckAnyMapped s id address size ≠ 0 ∨ mmanCheckAllMapped s oroot oaddress size ≠ 1

/-- The request is no mirror from root `0`; or it would be refused for the sender's own root just
    alike; or it is answered to nobody, and would do nothing. -/
def NoZeroOrigin (s : Sched) (own : Nat) (l : Locals) : Prop :=
  SchedType.ofByte l.type = some .mapMirror → l.arg 2 = 0 →
    s.mman.rootAddress (ownOr own (l.arg 0)) = 0 ∨ s.mman.rootAddress own = 0 ∨
      l.reqId = 0 ∧
        (ScansRefuse s.mman (ownOr own (l.arg 0)) (l.arg 1) own (l.arg 3) (l.arg 4) ∨ l.arg 4 = 0)

/-! ## Mirroring leaves its mark -/

theorem newTable_count_le (s : Mman) (pa q : Word) : s.pageCount q ≤ (s.newTable pa).pageCount q := by
  simp only [Mman.newTable]
  rw [pageCount_incrementPage]
  exact Nat.le_add_right _ _

theorem create_count_le (s : Mman) (root va q : Word) :
    s.pageCount q ≤ (mmanPagingAddrCreate s root va 3).1.pageCount q :=
  pagingAddrCreate_keeps (fun s' => s.pageCount q ≤ s'.pageCount q) le_rfl fun s' pa h =>
    h.trans (newTable_count_le s' pa q)

/-- A turn takes no reference away, and there is a page that gets one. -/
theorem mirrorPage_counts (root sroot : Word) (s : Mman) (va sva : Word) :
    (∀ q, s.pageCount q ≤ (mirrorPage root sroot s va sva).pageCount q) ∧
      ∃ p, s.pageCount p < (mirrorPage root sroot s va sva).pageCount p := by
  have hcreate : ∀ q, s.pageCount q ≤ (mmanPagingAddrCreate
      (mmanPagingAddrCreate s root va 3).1 sroot sva 3).1.pageCount q :=
    fun q => (create_count_le s root va q).trans (create_count_le _ sroot sva q)
  simp only [mirrorPage]
  generalize hpage : phyRead64 (mmanPagingAddrCreate (mmanPagingAddrCreate s root va 3).1 sroot sva
    3).1.phys (mmanPagingAddrCreate (mmanPagingAddrCreate s root va 3).1 sroot sva 3).2 &&&
    kmemFrameMask = page
  constructor
  · intro q
    rw [pageCount_incrementPage]
    exact (hcreate q).trans (Nat.le_add_right _ _)
  · refine ⟨page, ?_⟩
    rw [pageCount_incrementPage, if_pos rfl]
    exact Nat.lt_succ_of_le (hcreate page)

/-- Mirroring a page at least is no empty operation. -/
theorem mirrorPages_ne (root sroot : Word) (s : Mman) (address saddress size : Word)
    (hsize : 0 < size.toNat / 0x1000) :
    forPages size (fun s off => mirrorPage root sroot s (address + off) (saddress + off)) s ≠ s := by
  have hle : ∀ (n : Nat) q, s.pageCount q ≤ ((List.range n).foldl (fun s i =>
      mirrorPage root sroot s (address + BitVec.ofNat 64 i * 0x1000)
        (saddress + BitVec.ofNat 64 i * 0x1000)) s).pageCount q := by
    intro n q
    induction n with
    | zero => exact le_rfl
    | succ n ih =>
      rw [List.range_succ, List.foldl_append]
      exact ih.trans ((mirrorPage_counts root sroot _ _ _).1 q)
  intro heq
  obtain ⟨n, hn⟩ := Nat.exists_eq_succ_of_ne_zero hsize.ne'
  have hlast := heq
  simp only [forPages, hn, List.range_succ, List.foldl_append, List.foldl_cons,
    List.foldl_nil] at hlast
  obtain ⟨p, hp⟩ := (mirrorPage_counts root sroot ((List.range n).foldl (fun s i =>
    mirrorPage root sroot s (address + BitVec.ofNat 64 i * 0x1000)
      (saddress + BitVec.ofNat 64 i * 0x1000)) s) (address + BitVec.ofNat 64 n * 0x1000)
    (saddress + BitVec.ofNat 64 n * 0x1000)).2
  have hgrown := (hle n p).trans_lt hp
  rw [hlast] at hgrown
  exact lt_irrefl _ hgrown

/-- What `mman_mirror` can do. -/
theorem mmanMirror_cases (s : Mman) (id : Nat) (address : Word) (oroot : Nat)
    (oaddress size : Word) :
    (s.rootAddress id = 0 ∨ s.rootAddress oroot = 0) ∧
        mmanMirror s id address oroot oaddress size = (s, -1) ∨
      (s.rootAddress id ≠ 0 ∧ s.rootAddress oroot ≠ 0) ∧
        (ScansRefuse s id address oroot oaddress size ∧
            mmanMirror s id address oroot oaddress size = (s, 1) ∨
          ¬ ScansRefuse s id address oroot oaddress size ∧
            mmanMirror s id address oroot oaddress size =
              (forPages size (fun s' off => mirrorPage (s.rootAddress id) (s.rootAddress oroot) s'
                (address + off) (oaddress + off)) s, 0)) := by
  unfold mmanMirror ScansRefuse
  by_cases h₀ : s.rootAddress id = 0
  · exact .inl ⟨.inl h₀, if_pos h₀⟩
  · by_cases h₁ : s.rootAddress oroot = 0
    · refine .inl ⟨.inr h₁, ?_⟩
      simp only [if_neg h₀, if_pos h₁]
    · refine .inr ⟨⟨h₀, h₁⟩, ?_⟩
      simp only [if_neg h₀, if_neg h₁]
      by_cases h₂ : mmanCheckAnyMapped s id address size = 0
      · by_cases h₃ : mmanCheckAllMapped s oroot oaddress size = 1
        · simp [h₂, h₃]
        · simp [h₂, h₃]
      · simp [h₂]

/-! ## Two requests -/

section
variable {s : Sched} {q : Nat} {i : TaskInfo} {l l' : Locals} {own : Word} {b : Bytes}

theorem ownOr_resolved {id id' : Word} (hid : id' = id ∨ id = 0 ∧ id' = BitVec.ofNat 64 i.rootId)
    (hwidth : i.rootId < 2 ^ 64) : ownOr i.rootId id' = ownOr i.rootId id := by
  rcases hid with rfl | ⟨rfl, rfl⟩
  · rfl
  · unfold ownOr
    rw [BitVec.toNat_ofNat, Nat.mod_eq_of_lt hwidth]
    simp

theorem rootArg_eq (hq : s.entryInfo q = some i) (id : Word) :
    rootArg s q id = some (ownOr i.rootId id) := by
  unfold rootArg ownOr
  rw [hq]
  split <;> rfl

/-- What is outside of the root ids is the same, and so is `status`. -/
theorem Resolves.word (h : Resolves own l l') {off : Nat}
    (hoff : ∀ k ∈ rootFields (SchedType.ofByte l.type), off + 8 ≤ 16 + 8 * k ∨ 24 + 8 * k ≤ off) :
    l'.input.word off = l.input.word off := by
  apply word_congr
  intro j hj hj'
  apply h.rest
  intro k hk
  have := hoff k hk
  omega

theorem Resolves.type (h : Resolves own l l') : l'.type = l.type :=
  h.rest 0 fun k _ => .inl (by omega)

theorem Resolves.reqId (h : Resolves own l l') : l'.reqId = l.reqId :=
  h.word fun k _ => .inl (by omega)

/-- The words that are no root ids are the same. -/
theorem Resolves.arg (h : Resolves own l l') {k : Nat}
    (hk : k ∉ rootFields (SchedType.ofByte l.type)) : l'.arg k = l.arg k := by
  apply h.word
  intro k' hk'
  have hne : k' ≠ k := fun heq => hk (heq ▸ hk')
  omega

theorem Resolves.start (h : Resolves own l l') : l'.start.status = l.start.status := by
  rw [start_status, start_status, h.type, h.reqId, h.status]

theorem start_reqId (l : Locals) : l.start.status.word 8 = l.reqId := by
  rw [start_status]
  simp only [Bytes.fill, List.foldl_cons, List.foldl_nil]
  rw [word_setWord_other (.inl (by decide)), word_setWord]

/-- The state after a turn, and the reply, from the effect of its request. -/
def answer (q : Nat) (b : Bytes) (r : Option (Sched × List (Nat × Word))) :
    Option (Sched × Option (List Byte)) := r.bind fun p => sendReply p.1 q (b.fill p.2)

theorem requestTurn_answer (s : Sched) (q : Nat) (l : Locals) :
    requestTurn s q [] l = answer q l.start.status (effect s q l.request) := by
  have hturn := requestTurn_eq s q [] l
  have hreceive : l.receive [] = l := by
    rw [Locals.receive, store_nil]
  rw [hreceive] at hturn
  exact hturn

/-- A reply is sent on the channel of an entry that has one. -/
theorem sendReply_isSome (hq : (s.entryInfo q).isSome) (b : Bytes) : (sendReply s q b).isSome := by
  obtain ⟨i, hi⟩ := Option.isSome_iff_exists.mp hq
  simp only [sendReply, reply, hi]
  split <;> rfl

/-- The reply says what the result was. -/
theorem answer_result_inj {s₁ s₂ : Sched} {x y : Word} (hq : (s₁.entryInfo q).isSome)
    (hb : b.word 8 ≠ 0)
    (heq : answer q b (some (s₁, [(16, x)])) = answer q b (some (s₂, [(16, y)]))) : x = y := by
  have hword : ∀ v, (b.setWord 16 v).word 8 = b.word 8 := fun v => word_setWord_other (.inl le_rfl)
  simp only [answer, Option.bind_some, Bytes.fill, List.foldl_cons, List.foldl_nil] at heq
  obtain ⟨r, hr⟩ := Option.isSome_iff_exists.mp (sendReply_isSome hq (b.setWord 16 x))
  rw [hr] at heq
  simp only [sendReply, Option.map_eq_some_iff] at hr
  obtain ⟨_, -, rfl⟩ := hr
  obtain ⟨_, -, hsent⟩ := Option.map_eq_some_iff.mp heq.symm
  have hsent := congrArg Prod.snd hsent
  simp only [Locals.sent, hword, if_neg hb, Option.some.injEq] at hsent
  have hbyte : ∀ j, 16 ≤ j → j < 16 + 8 → b.setWord 16 x j = b.setWord 16 y j := by
    intro j hj hj'
    have hlt : j < outSize := hj'.trans (by decide)
    have hget := congrArg (fun bs : List Byte => bs[j]?) hsent
    simpa [load, hlt] using hget.symm
  have hx := word_congr hbyte
  rwa [word_setWord, word_setWord] at hx

/-- Without an id the reply is not sent. -/
theorem answer_silent {x : Word} (hb : b.word 8 = 0) :
    answer q b (some (s, [(16, x)])) = some (s, none) := by
  have hword : (b.setWord 16 x).word 8 = b.word 8 := word_setWord_other (.inl le_rfl)
  simp only [answer, Option.bind_some, Bytes.fill, List.foldl_cons, List.foldl_nil]
  exact sendReply_silent (hword.trans hb)

/-- A mirror's effect, from its outcome. -/
theorem effect_mirror {root address oroot oaddress size : Word} {o : Nat} {m : Mman} {r : Int}
    (hq : s.entryInfo q = some i) (ho : oroot.toNat = o)
    (h : mmanMirror s.mman (ownOr i.rootId root) address o oaddress size = (m, r)) :
    effect s q (.mapMirror root address oroot oaddress size) =
      some ({ s with mman := m }, [(16, resultWord r)]) := by
  have hquiet : m.pagefreeCalls = s.mman.pagefreeCalls := by
    have hcalls := (quiet_mmanMirror s.mman (ownOr i.rootId root) address o oaddress size).calls
    rwa [h] at hcalls
  have hset : s.setMman m = some { s with mman := m } := by
    unfold Sched.setMman
    rw [hquiet, Nat.sub_self]
    rfl
  simp only [effect, ho, mapEffect, rootArg_eq hq, Option.bind_eq_bind, Option.bind_some, h, hset]
  rfl

/-- **Mirroring from root `0`**, and from the sender's own root. -/
theorem mirror_from_zero (hq : s.entryInfo q = some i) (hwidth : i.rootId < 2 ^ 64)
    (hzero : s.mman.rootAddress 0 = 0) {root address oaddress size : Word} :
    answer q b (effect s q (.mapMirror root address (BitVec.ofNat 64 i.rootId) oaddress size)) =
        answer q b (effect s q (.mapMirror root address 0 oaddress size)) ↔
      s.mman.rootAddress (ownOr i.rootId root) = 0 ∨ s.mman.rootAddress i.rootId = 0 ∨
        b.word 8 = 0 ∧ (ScansRefuse s.mman (ownOr i.rootId root) address i.rootId oaddress size ∨
          size = 0) := by
  have hown : (BitVec.ofNat 64 i.rootId).toNat = i.rootId := by
    rw [BitVec.toNat_ofNat, Nat.mod_eq_of_lt hwidth]
  have hq' : (s.entryInfo q).isSome := by rw [hq]; rfl
  -- root `0` is not known, whatever the target is
  have hfail : mmanMirror s.mman (ownOr i.rootId root) address (0 : Word).toNat oaddress size =
      (s.mman, -1) := by
    rcases mmanMirror_cases s.mman (ownOr i.rootId root) address (0 : Word).toNat oaddress size with
      ⟨-, h⟩ | ⟨⟨-, h⟩, -⟩
    · exact h
    · exact absurd hzero h
  have hfailed := effect_mirror hq rfl hfail
  rw [hfailed]
  rcases mmanMirror_cases s.mman (ownOr i.rootId root) address i.rootId oaddress size with
    ⟨hunknown, h⟩ | ⟨⟨h₀, h₁⟩, ⟨hrefuse, h⟩ | ⟨hscan, h⟩⟩
  · rw [effect_mirror hq hown h]
    refine iff_of_true rfl ?_
    rcases hunknown with hunknown | hunknown
    · exact .inl hunknown
    · exact .inr (.inl hunknown)
  · rw [effect_mirror hq hown h]
    constructor
    · intro heq
      refine .inr (.inr ⟨?_, .inl hrefuse⟩)
      by_contra hb
      exact absurd (answer_result_inj hq' hb heq) (by decide)
    · intro hor
      obtain ⟨hb, -⟩ := (hor.resolve_left h₀).resolve_left h₁
      rw [answer_silent hb, answer_silent hb]
  · have hempty : size = 0 → forPages size (fun s' off => mirrorPage
        (s.mman.rootAddress (ownOr i.rootId root)) (s.mman.rootAddress i.rootId) s' (address + off)
        (oaddress + off)) s.mman = s.mman := by
      intro hsize
      rw [hsize]
      rfl
    have hmark := mirrorPages_ne (s.mman.rootAddress (ownOr i.rootId root))
      (s.mman.rootAddress i.rootId) s.mman address oaddress size
    generalize forPages size _ s.mman = m at h hempty hmark
    have hm : ({ s with mman := m } : Sched).entryInfo q = s.entryInfo q := rfl
    rw [effect_mirror hq hown h]
    constructor
    · intro heq
      have hb : b.word 8 = 0 := by
        by_contra hb
        exact absurd (answer_result_inj (hm ▸ hq') hb heq) (by decide)
      refine .inr (.inr ⟨hb, .inr ?_⟩)
      rw [answer_silent hb, answer_silent hb, Option.some.injEq, Prod.mk.injEq] at heq
      by_contra hne
      refine hmark ?_ (congrArg Sched.mman heq.1)
      -- the scan has found the size to be a multiple of the page size
      have hcheck : mmanCheckAnyMapped s.mman (ownOr i.rootId root) address size = 0 := by
        by_contra hcheck
        exact hscan (.inl hcheck)
      have haligned : size &&& 0xfff = 0 := by
        by_contra haligned
        simp only [mmanCheckAnyMapped, if_neg h₀, ne_eq, if_pos haligned] at hcheck
        split_ifs at hcheck
      have hpage := and_fff_eq_zero.mp haligned
      have hpos : size.toNat ≠ 0 := fun h₂ => hne (BitVec.eq_of_toNat_eq h₂)
      rw [PageAligned] at hpage
      omega
    · intro hor
      obtain ⟨hb, hsize⟩ := (hor.resolve_left h₀).resolve_left h₁
      have hsize := hsize.resolve_left hscan
      rw [answer_silent hb, answer_silent hb, hempty hsize]

/-- **A zero is the sender's own root** in every field of a request, if and only if the request is
    no mirror from root `0` that would not be refused anyway. -/
theorem root_zero_is_own (hq : s.entryInfo q = some i) (hwidth : i.rootId < 2 ^ 64)
    (hzero : s.mman.rootAddress 0 = 0) :
    (∀ l', Resolves (BitVec.ofNat 64 i.rootId) l l' →
      requestTurn s q [] l' = requestTurn s q [] l) ↔ NoZeroOrigin s i.rootId l := by
  constructor
  · intro hlaw htype hzeroed
    have hroots : rootFields (SchedType.ofByte l.type) = [0, 2] := by rw [htype]; rfl
    -- the same request, from the sender's own root by name
    let l' : Locals := ⟨l.input.setWord 32 (BitVec.ofNat 64 i.rootId), l.status⟩
    have hother : ∀ k, k ≠ 2 → l'.arg k = l.arg k := fun k hk =>
      word_setWord_other (by omega)
    have hres : Resolves (BitVec.ofNat 64 i.rootId) l l' := by
      refine ⟨rfl, fun k hk => ?_, fun j hj => ?_⟩
      · by_cases h₂ : k = 2
        · subst h₂
          exact .inr ⟨hzeroed, word_setWord⟩
        · exact .inl (hother k h₂)
      · apply setWord_other
        exact hj 2 (by rw [hroots]; simp)
    have heq := hlaw l' hres
    rw [requestTurn_answer, requestTurn_answer, hres.start] at heq
    have hreq : l.request = .mapMirror (l.arg 0) (l.arg 1) 0 (l.arg 3) (l.arg 4) := by
      simp only [Locals.request, htype, hzeroed]
    have hreq' : l'.request = .mapMirror (l.arg 0) (l.arg 1) (BitVec.ofNat 64 i.rootId) (l.arg 3)
        (l.arg 4) := by
      have harg : l'.arg 2 = BitVec.ofNat 64 i.rootId := word_setWord
      simp only [Locals.request, hres.type, htype, hother 0 (by omega), hother 1 (by omega),
        hother 3 (by omega), hother 4 (by omega), harg]
    rw [hreq, hreq'] at heq
    have hharmless := (mirror_from_zero hq hwidth hzero).mp heq
    rwa [start_reqId] at hharmless
  · intro h l' hres
    rw [requestTurn_answer, requestTurn_answer, hres.start]
    have hroot : ∀ k ∈ rootFields (SchedType.ofByte l.type),
        ownOr i.rootId (l'.arg k) = ownOr i.rootId (l.arg k) :=
      fun k hk => ownOr_resolved (hres.roots k hk) hwidth
    have hargs : ∀ k, k ∉ rootFields (SchedType.ofByte l.type) → l'.arg k = l.arg k :=
      fun k hk => hres.arg hk
    cases htype : SchedType.ofByte l.type with
    | none => simp only [Locals.request, hres.type, htype]
    | some type =>
      rw [htype] at hroot hargs
      cases type with
      | mapAnonymous =>
        simp only [Locals.request, hres.type, htype, hargs 1 (by decide), hargs 2 (by decide),
          effect, mapEffect, rootArg_eq hq, hroot 0 (by decide)]
      | mapPhysical =>
        simp only [Locals.request, hres.type, htype, hargs 1 (by decide), hargs 2 (by decide),
          hargs 3 (by decide), effect, mapEffect, rootArg_eq hq, hroot 0 (by decide)]
      | unmap =>
        simp only [Locals.request, hres.type, htype, hargs 1 (by decide), hargs 2 (by decide),
          effect, mapEffect, rootArg_eq hq, hroot 0 (by decide)]
      | spawn =>
        simp only [Locals.request, hres.type, htype, effect, rootArg_eq hq, hroot 0 (by decide)]
      | mapMirror =>
        simp only [Locals.request, hres.type, htype, hargs 1 (by decide), hargs 3 (by decide),
          hargs 4 (by decide)]
        -- the target first, then the origin
        have htarget : ∀ oroot, effect s q (.mapMirror (l'.arg 0) (l.arg 1) oroot (l.arg 3)
            (l.arg 4)) = effect s q (.mapMirror (l.arg 0) (l.arg 1) oroot (l.arg 3) (l.arg 4)) := by
          intro oroot
          simp only [effect, mapEffect, rootArg_eq hq, hroot 0 (by decide)]
        rw [htarget]
        have horigin := hres.roots 2 (by rw [htype]; decide)
        rcases horigin with hsame | ⟨hzeroed, hown⟩
        · rw [hsame]
        · rw [hown, hzeroed]
          apply (mirror_from_zero hq hwidth hzero).mpr
          rw [start_reqId]
          exact h htype hzeroed
      | _ =>
        have hsame : l'.input = l.input := by
          funext j
          apply hres.rest
          intro k hk
          rw [htype] at hk
          exact absurd hk (List.not_mem_nil)
        have heq : l' = l := by
          cases l'
          cases l
          simp only [Locals.mk.injEq]
          exact ⟨hsame, hres.status⟩
        rw [heq]

end

/-- A client of a root that maps its first page. -/
def mappedClient : Sched :=
  let s := Sched.init twoRootsMman (fun _ _ => 0) .bump fun _ => ⟨0, 0, 0, 0, 0, 0, 0, fun _ => 0⟩
  let (s, info) := s.alloc (.info (some ⟨7, 2, 0x1001, 0, 0, 0⟩))
  { s with taskMap := (s.taskMap.insert 7 info).1, queue := fun _ => ⟨7, info⟩, queueSize := 1 }

/-- `SCHED_MAP_MIRROR` of the first page to the third, with an id for the reply. -/
def mirrorRequest (oroot : Word) : Locals where
  input := Bytes.setWord (store (fun _ => 0) 0 [5, 0, 0, 0, 0, 0, 0, 0, 1, 0, 0, 0, 0, 0, 0, 0, 0, 0,
    0, 0, 0, 0, 0, 0, 0, 0x20, 0, 0, 0, 0, 0, 0, 0, 0, 0, 0, 0, 0, 0, 0, 0, 0, 0, 0, 0, 0, 0, 0, 0,
    0x10, 0, 0, 0, 0, 0, 0]) 32 oroot
  status _ := 0

/-- The target of this request is `0`, and may as well be the sender's root by name. -/
theorem root_zero_is_own_of_target :
    requestTurn mappedClient 0 []
        ⟨(mirrorRequest 0x1001).input.setWord 16 0x1001, (mirrorRequest 0x1001).status⟩ =
      requestTurn mappedClient 0 [] (mirrorRequest 0x1001) := by
  apply (root_zero_is_own (i := ⟨7, 2, 0x1001, 0, 0, 0⟩) (by decide) (by decide) (by decide)).mpr
  · intro _ horigin
    exact absurd horigin (by decide)
  · refine ⟨rfl, fun k hk => ?_, fun j hj => setWord_other (hj 0 (by decide))⟩
    fin_cases hk
    · exact .inr ⟨by decide, by decide⟩
    · exact .inl (word_setWord_other (by decide))

/-- Its own root by name, the task gets the page mirrored; with `0` for it, it does not. -/
theorem zero_origin_refused :
    Resolves 0x1001 (mirrorRequest 0) (mirrorRequest 0x1001) ∧
    (effect mappedClient 0 (mirrorRequest 0x1001).request).map Prod.snd = some [(16, 0)] ∧
    (effect mappedClient 0 (mirrorRequest 0).request).map Prod.snd = some [(16, -1)] ∧
    requestTurn mappedClient 0 [] (mirrorRequest 0x1001) ≠
      requestTurn mappedClient 0 [] (mirrorRequest 0) := by
  refine ⟨⟨rfl, fun k hk => ?_, fun j hj => ?_⟩, by decide, by decide, fun heq => ?_⟩
  · fin_cases hk
    · exact .inl (by decide)
    · exact .inr ⟨by decide, by decide⟩
  · exact (setWord_other (hj 2 (by decide))).trans (setWord_other (hj 2 (by decide))).symm
  · exact absurd (congrArg (Option.map Prod.snd) heq) (by decide)

end Refk
