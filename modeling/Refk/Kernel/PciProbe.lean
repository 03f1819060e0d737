import Refk.Kernel.Pci
import Refk.Lib.TreeWalk

/-!
# `kernel/hw/pci.c` — the probe of the buses

`pci_probe_all` looks at every function of bus 0, and behind a function that it takes for a bridge
at those of the bus that this leads to. It does not remember where it has been: it is a `treeWalk`,
so it ends exactly if no bridge leads back.

What is taken for a bridge has class 4 and subclass 6, where the specification of PCI has it the
other way round.
-/

namespace Refk

open Lib

/-- The bridge to the configuration space, and what has been done: the functions that were printed,
    and the calls of `rtl8139_init`. -/
structure Probe where
  host : PciHost
  found : List PciDevice
  ethernet : List PciDevice

/-- `pci_readconfig` for a function of a device. -/
def Probe.read (p : Probe) (d : PciDevice) (off : BitVec 32) : Probe × BitVec 32 :=
  let (host, value) := pciReadconfig p.host (d.bus.setWidth 32) (d.device.setWidth 32)
    (d.function.setWidth 32) off
  ({ p with host := host }, value)

section
variable (probeFunction : Probe → PciDevice → Option Probe)

/-- A turn of the loop of `probe_device`. -/
def probeFurther (bus : BitVec 8) (device : BitVec 5) (p : Probe) (i : Nat) : Option Probe :=
  let d : PciDevice := ⟨bus, device, BitVec.ofNat 3 i⟩
  let (p, fid) := p.read d 0x00
  if fid = 0xffffffff then some p else probeFunction p d

/-- `probe_device` -/
def probeDevice (bus : BitVec 8) (p : Probe) (device : BitVec 5) : Option Probe :=
  let d : PciDevice := ⟨bus, device, 0⟩
  -- probe function 0's ID
  let (p, id) := p.read d 0x00
  if id = 0xffffffff then some p
  else do
    let p ← probeFunction p d
    let (p, info) := p.read d 0x0c
    let headerType : BitVec 8 := (info >>> 16).setWidth 8
    -- is this a multifunction device?
    if headerType &&& 0x80 ≠ 0 then
      (List.range' 1 7).foldlM (probeFurther probeFunction bus device) p
    else some p

/-- `probe_bus` -/
def probeBus (p : Probe) (bus : BitVec 8) : Option Probe :=
  (List.range 32).foldlM (fun p i => probeDevice probeFunction bus p (BitVec.ofNat 5 i)) p

end

/-- `probe_function`; `none` if it is still going `fuel` buses down. -/
def probeFunction : Nat → Probe → PciDevice → Option Probe
  | 0, _, _ => none
  | fuel + 1, p, d =>
    let (p, cls) := p.read d 0x08
    let baseclass : BitVec 8 := (cls >>> 24).setWidth 8
    let subclass : BitVec 8 := (cls >>> 16).setWidth 8
    let p := { p with found := p.found ++ [d] }
    -- is this a PCI bridge?
    if baseclass = 0x04 ∧ subclass = 0x06 then
      let (p, secondaryBus) := p.read d 0x18
      let secondaryBus := (secondaryBus >>> 8) &&& 0xff
      probeBus (probeFunction fuel) p (secondaryBus.setWidth 8)
    else if baseclass = 0x02 ∧ subclass = 0x00 then
      some { p with ethernet := p.ethernet ++ [d] }
    else some p

/-- `pci_probe_all` -/
def pciProbeAll (fuel : Nat) (host : PciHost) : Option Probe :=
  probeBus (probeFunction fuel) ⟨host, [], []⟩ 0

/-! ## What there is to find -/

namespace PciHost

variable (h : PciHost)

/-- A doubleword of a function's configuration space. -/
def dword (d : PciDevice) (off : BitVec 8) : BitVec 32 := BitVec.ofNat 32 (h.value d off 4)

/-- There is such a function. -/
def Present (d : PciDevice) : Prop := h.dword d 0 ≠ 0xffffffff

instance (d : PciDevice) : Decidable (h.Present d) := inferInstanceAs (Decidable (_ ≠ _))

/-- The device has other functions than the first. -/
def Multifunction (d : PciDevice) : Prop :=
  ((h.dword d 0x0c >>> 16).setWidth 8 : BitVec 8) &&& 0x80 ≠ 0

instance (d : PciDevice) : Decidable (h.Multifunction d) := inferInstanceAs (Decidable (_ ≠ _))

/-- The class code of a function. -/
def HasClass (d : PciDevice) (baseclass subclass : BitVec 8) : Prop :=
  (h.dword d 8 >>> 24).setWidth 8 = baseclass ∧ (h.dword d 8 >>> 16).setWidth 8 = subclass

instance (d : PciDevice) (baseclass subclass : BitVec 8) :
    Decidable (h.HasClass d baseclass subclass) := inferInstanceAs (Decidable (_ ∧ _))

/-- The bus that a bridge leads to. -/
def secondaryBus (d : PciDevice) : BitVec 8 := ((h.dword d 0x18 >>> 8) &&& 0xff).setWidth 8

/-- A further function of a device, if it is there. -/
def further (bus : BitVec 8) (device : BitVec 5) (i : Nat) : List PciDevice :=
  if h.Present ⟨bus, device, BitVec.ofNat 3 i⟩ then [⟨bus, device, BitVec.ofNat 3 i⟩] else []

/-- The functions of a device. -/
def functionsAt (bus : BitVec 8) (device : BitVec 5) : List PciDevice :=
  if h.Present ⟨bus, device, 0⟩ then
    ⟨bus, device, 0⟩ :: if h.Multifunction ⟨bus, device, 0⟩ then
      (List.range' 1 7).flatMap (h.further bus device) else []
  else []

/-- The functions on a bus. -/
def functions (bus : BitVec 8) : List PciDevice :=
  (List.range 32).flatMap fun i => h.functionsAt bus (BitVec.ofNat 5 i)

/-- The functions on the bus behind a function. -/
def behind (d : PciDevice) : List PciDevice :=
  if h.HasClass d 0x04 0x06 then h.functions (h.secondaryBus d) else []

end PciHost

/-! ## What the probe does -/

/-- The functions `out` have been visited: each has been printed, and the driver has been called for
    the Ethernet controllers among them. -/
structure Probed (h : PciHost) (p : Probe) (out : List PciDevice) (p' : Probe) : Prop where
  config : p'.host.config = h.config
  found : p'.found = p.found ++ out
  ethernet : p'.ethernet = p.ethernet ++ out.filter fun d => h.HasClass d 0x02 0x00

/-- A part of the probe makes these visits, or does not end. -/
def Visits (h : PciHost) (f : Probe → Option Probe) (visits : Option (List PciDevice)) : Prop :=
  ∀ p, p.host.config = h.config →
    (∀ out, visits = some out → ∃ p', f p = some p' ∧ Probed h p out p') ∧
    (visits = none → f p = none)

section
variable {h : PciHost} {f f' : Probe → Option Probe} {v v' : Option (List PciDevice)}
  {g : PciDevice → Option (List PciDevice)} {pf : Probe → PciDevice → Option Probe} {p : Probe}

theorem Probed.trans {p' p'' : Probe} {out out' : List PciDevice} (h₁ : Probed h p out p')
    (h₂ : Probed h p' out' p'') : Probed h p (out ++ out') p'' where
  config := h₂.config
  found := by
    rw [h₂.found, h₁.found, List.append_assoc]
  ethernet := by
    rw [h₂.ethernet, h₁.ethernet, List.filter_append, List.append_assoc]

theorem visits_nothing : Visits h some (some []) := by
  intro p hp
  refine ⟨fun out hout => ?_, nofun⟩
  obtain rfl := Option.some.inj hout
  exact ⟨p, rfl, hp, (List.append_nil _).symm, (List.append_nil _).symm⟩

/-- One part after another. -/
theorem Visits.bind (hf : Visits h f v) (hf' : Visits h f' v') :
    Visits h (fun p => (f p).bind f') (v.bind fun out => v'.map (out ++ ·)) := by
  intro p hp
  cases v with
  | none =>
    refine ⟨nofun, fun _ => ?_⟩
    change (f p).bind f' = none
    rw [(hf p hp).2 rfl]
    rfl
  | some out =>
    obtain ⟨p', hrun, hprobed⟩ := (hf p hp).1 out rfl
    obtain ⟨hsome, hnone⟩ := hf' p' hprobed.config
    simp only [hrun, Option.bind_some]
    refine ⟨fun out'' hout'' => ?_, fun hv' => hnone (Option.map_eq_none_iff.mp hv')⟩
    obtain ⟨out', hv', rfl⟩ := Option.map_eq_some_iff.mp hout''
    obtain ⟨p'', hrun', hprobed'⟩ := hsome out' hv'
    exact ⟨p'', hrun', hprobed.trans hprobed'⟩

/-- A loop. -/
theorem Visits.foldlM {α : Type} {step : Probe → α → Option Probe} {ds : α → List PciDevice}
    (l : List α) (hstep : ∀ a, Visits h (fun p => step p a) (walkAll g (ds a))) :
    Visits h (fun p => l.foldlM step p) (walkAll g (l.flatMap ds)) := by
  induction l with
  | nil => exact visits_nothing
  | cons a l ih =>
    rw [List.flatMap_cons, walkAll_append]
    exact (hstep a).bind ih

/-- What a read shows, whatever was read before. -/
theorem read_eq (hp : p.host.config = h.config) (d : PciDevice) (off : BitVec 8)
    (hoff : off &&& 0xfc = off) : ∃ host : PciHost, host.config = h.config ∧
      p.read d (off.setWidth 32) = ({ p with host := host }, h.dword d off) := by
  have hwidth : ∀ x : BitVec 8, ((x.setWidth 16).setWidth 32 : BitVec 32) = x.setWidth 32 := by
    intro x
    simp
  have hread := pciReadconfig_eq p.host d off
  have hvalue : p.host.value d off 4 = h.value d off 4 := by
    unfold PciHost.value
    rw [hp]
  have hdevice : ((d.device.setWidth 16).setWidth 32 : BitVec 32) = d.device.setWidth 32 := by
    simp
  have hfunction : ((d.function.setWidth 16).setWidth 32 : BitVec 32) = d.function.setWidth 32 := by
    simp
  simp only [PciDevice.id, hwidth, hdevice, hfunction, hoff, hvalue] at hread
  refine ⟨(pciReadconfig p.host (d.bus.setWidth 32) (d.device.setWidth 32)
    (d.function.setWidth 32) (off.setWidth 32)).1, hp, ?_⟩
  rw [PciHost.dword, ← hread]
  rfl

/-- After a read the rest goes by what is there. -/
theorem Visits.read {k : Probe → BitVec 32 → Option Probe} (d : PciDevice) (off : BitVec 8)
    (hoff : off &&& 0xfc = off) (hk : Visits h (fun p => k p (h.dword d off)) v) :
    Visits h (fun p => k (p.read d (off.setWidth 32)).1 (p.read d (off.setWidth 32)).2) v := by
  intro p hp
  obtain ⟨host, hhost, hread⟩ := read_eq hp d off hoff
  obtain ⟨hsome, hnone⟩ := hk { p with host := host } hhost
  simp only [hread]
  refine ⟨fun out hout => ?_, hnone⟩
  obtain ⟨p', hrun, hprobed⟩ := hsome out hout
  exact ⟨p', hrun, hprobed.config, hprobed.found, hprobed.ethernet⟩

theorem walkAll_singleton (d : PciDevice) : walkAll g [d] = g d := by
  rw [walkAll_cons, walkAll_nil]
  cases g d with
  | none => rfl
  | some out => exact congrArg some (List.append_nil out)

theorem Visits.further (hpf : ∀ d, Visits h (fun p => pf p d) (g d)) (bus : BitVec 8)
    (device : BitVec 5) (i : Nat) :
    Visits h (fun p => probeFurther pf bus device p i) (walkAll g (h.further bus device i)) := by
  apply Visits.read (k := fun p fid => if fid = 0xffffffff then some p
    else pf p ⟨bus, device, BitVec.ofNat 3 i⟩) ⟨bus, device, BitVec.ofNat 3 i⟩ 0 (by decide)
  unfold PciHost.further
  by_cases hpresent : h.Present ⟨bus, device, BitVec.ofNat 3 i⟩
  · have hne : h.dword ⟨bus, device, BitVec.ofNat 3 i⟩ 0 ≠ 0xffffffff := hpresent
    rw [if_pos hpresent, walkAll_singleton]
    simp only [if_neg hne]
    exact hpf _
  · have habsent : h.dword ⟨bus, device, BitVec.ofNat 3 i⟩ 0 = 0xffffffff :=
      not_not.mp hpresent
    rw [if_neg hpresent]
    simp only [habsent, if_true]
    exact visits_nothing

theorem Visits.device (hpf : ∀ d, Visits h (fun p => pf p d) (g d)) (bus : BitVec 8)
    (device : BitVec 5) :
    Visits h (fun p => probeDevice pf bus p device) (walkAll g (h.functionsAt bus device)) := by
  apply Visits.read (k := fun p id => if id = 0xffffffff then some p else
    (pf p ⟨bus, device, 0⟩).bind fun p =>
      if ((p.read ⟨bus, device, 0⟩ 0x0c).2 >>> 16).setWidth 8 &&& (0x80 : BitVec 8) ≠ 0 then
        (List.range' 1 7).foldlM (probeFurther pf bus device) (p.read ⟨bus, device, 0⟩ 0x0c).1
      else some (p.read ⟨bus, device, 0⟩ 0x0c).1) ⟨bus, device, 0⟩ 0 (by decide)
  unfold PciHost.functionsAt
  by_cases hpresent : h.Present ⟨bus, device, 0⟩
  · have hne : h.dword ⟨bus, device, 0⟩ 0 ≠ 0xffffffff := hpresent
    rw [if_pos hpresent, walkAll_cons]
    simp only [if_neg hne]
    refine (hpf _).bind ?_
    apply Visits.read (k := fun p info => if (info >>> 16).setWidth 8 &&& (0x80 : BitVec 8) ≠ 0 then
      (List.range' 1 7).foldlM (probeFurther pf bus device) p else some p) ⟨bus, device, 0⟩
      0x0c (by decide)
    by_cases hmulti : h.Multifunction ⟨bus, device, 0⟩
    · have hbit : (h.dword ⟨bus, device, 0⟩ 0x0c >>> 16).setWidth 8 &&& (0x80 : BitVec 8) ≠ 0 :=
        hmulti
      rw [if_pos hmulti]
      simp only [if_pos hbit]
      exact Visits.foldlM _ (Visits.further hpf bus device)
    · have hbit : ¬ (h.dword ⟨bus, device, 0⟩ 0x0c >>> 16).setWidth 8 &&& (0x80 : BitVec 8) ≠ 0 :=
        hmulti
      rw [if_neg hmulti]
      simp only [if_neg hbit]
      exact visits_nothing
  · have habsent : h.dword ⟨bus, device, 0⟩ 0 = 0xffffffff := not_not.mp hpresent
    rw [if_neg hpresent]
    simp only [habsent, if_true]
    exact visits_nothing

theorem Visits.bus (hpf : ∀ d, Visits h (fun p => pf p d) (g d)) (bus : BitVec 8) :
    Visits h (fun p => probeBus pf p bus) (walkAll g (h.functions bus)) :=
  Visits.foldlM _ fun i => Visits.device hpf bus (BitVec.ofNat 5 i)

/-- A function is printed first. -/
theorem Visits.print {d : PciDevice} (hd : ¬ h.HasClass d 0x02 0x00) (hf : Visits h f v) :
    Visits h (fun p => f { p with found := p.found ++ [d] }) (v.map (d :: ·)) := by
  intro p hp
  obtain ⟨hsome, hnone⟩ := hf { p with found := p.found ++ [d] } hp
  refine ⟨fun out hout => ?_, fun hv => hnone (Option.map_eq_none_iff.mp hv)⟩
  obtain ⟨out, hv, rfl⟩ := Option.map_eq_some_iff.mp hout
  obtain ⟨p', hrun, hprobed⟩ := hsome out hv
  refine ⟨p', hrun, hprobed.config, ?_, ?_⟩
  · rw [hprobed.found, List.append_assoc]
    rfl
  · rw [hprobed.ethernet, List.filter_cons_of_neg (by simpa using hd)]

/-- An Ethernet controller is printed, and its driver called. -/
theorem visits_ethernet {d : PciDevice} (hd : h.HasClass d 0x02 0x00) :
    Visits h (fun p => some { p with found := p.found ++ [d], ethernet := p.ethernet ++ [d] })
      (some [d]) := by
  intro p hp
  refine ⟨fun out hout => ?_, nofun⟩
  obtain rfl := Option.some.inj hout
  refine ⟨_, rfl, hp, rfl, ?_⟩
  rw [List.filter_cons_of_pos (by simpa using hd)]
  rfl

/-- **`probe_function` is a walk** from the function through what is behind it. -/
theorem visits_probeFunction (fuel : Nat) : ∀ d,
    Visits h (fun p => probeFunction fuel p d) (treeWalk h.behind fuel d) := by
  induction fuel with
  | zero => exact fun d p _ => ⟨nofun, fun _ => rfl⟩
  | succ fuel ih =>
    intro d
    rw [treeWalk_succ]
    apply Visits.read (k := fun p cls =>
      if (cls >>> 24).setWidth 8 = (0x04 : BitVec 8) ∧
          (cls >>> 16).setWidth 8 = (0x06 : BitVec 8) then
        probeBus (probeFunction fuel) (Probe.read { p with found := p.found ++ [d] } d 0x18).1
          ((((Probe.read { p with found := p.found ++ [d] } d 0x18).2 >>> 8) &&& 0xff).setWidth 8)
      else if (cls >>> 24).setWidth 8 = (0x02 : BitVec 8) ∧
          (cls >>> 16).setWidth 8 = (0x00 : BitVec 8) then
        some { p with found := p.found ++ [d], ethernet := p.ethernet ++ [d] }
      else some { p with found := p.found ++ [d] }) d 0x08 (by decide)
    by_cases hbridge : h.HasClass d 0x04 0x06
    · have hno : ¬ h.HasClass d 0x02 0x00 := by
        intro hclass
        have heq := hbridge.1.symm.trans hclass.1
        exact absurd heq (by decide)
      have hclass := hbridge
      unfold PciHost.HasClass at hclass
      simp only [hclass, and_self, if_true]
      rw [PciHost.behind, if_pos hbridge]
      apply Visits.print (f := fun p => probeBus (probeFunction fuel) (p.read d 0x18).1
        (((p.read d 0x18).2 >>> 8 &&& 0xff).setWidth 8)) hno
      exact Visits.read (k := fun p secondaryBus => probeBus (probeFunction fuel) p
        (((secondaryBus >>> 8) &&& 0xff).setWidth 8)) d 0x18 (by decide)
        (Visits.bus ih _)
    · have hclass := hbridge
      unfold PciHost.HasClass at hclass
      simp only [if_neg hclass]
      rw [PciHost.behind, if_neg hbridge, walkAll_nil, Option.map_some]
      by_cases hethernet : h.HasClass d 0x02 0x00
      · have hclass' := hethernet
        unfold PciHost.HasClass at hclass'
        simp only [if_pos hclass']
        exact visits_ethernet hethernet
      · have hclass' := hethernet
        unfold PciHost.HasClass at hclass'
        simp only [if_neg hclass']
        exact Visits.print hethernet visits_nothing

theorem mem_further {bus : BitVec 8} {device : BitVec 5} {i : Nat} {d : PciDevice} :
    d ∈ h.further bus device i ↔ d = ⟨bus, device, BitVec.ofNat 3 i⟩ ∧ h.Present d := by
  unfold PciHost.further
  split
  · next hpresent =>
    rw [List.mem_singleton]
    constructor
    · intro heq
      rw [heq]
      exact ⟨rfl, hpresent⟩
    · exact And.left
  · next habsent =>
    constructor
    · intro hd
      cases hd
    · intro ⟨heq, hpresent⟩
      rw [heq] at hpresent
      exact absurd hpresent habsent

theorem function_ne_zero_iff : ∀ f : BitVec 3,
    f ≠ 0 ↔ ∃ i ∈ List.range' 1 7, f = BitVec.ofNat 3 i := by
  decide

theorem mem_functionsAt {bus : BitVec 8} {device : BitVec 5} {d : PciDevice} :
    d ∈ h.functionsAt bus device ↔ d.bus = bus ∧ d.device = device ∧
      h.Present ⟨bus, device, 0⟩ ∧
        (d.function ≠ 0 → h.Multifunction ⟨bus, device, 0⟩ ∧ h.Present d) := by
  obtain ⟨b, dev, f⟩ := d
  have hfurther : (⟨b, dev, f⟩ : PciDevice) ∈ (List.range' 1 7).flatMap (h.further bus device) ↔
      b = bus ∧ dev = device ∧ f ≠ 0 ∧ h.Present ⟨b, dev, f⟩ := by
    rw [List.mem_flatMap, function_ne_zero_iff]
    constructor
    · intro ⟨i, hi, hmem⟩
      obtain ⟨heq, hpresent⟩ := mem_further.mp hmem
      obtain ⟨hb, hdev, hf⟩ := PciDevice.mk.inj heq
      exact ⟨hb, hdev, ⟨i, hi, hf⟩, hpresent⟩
    · intro ⟨hb, hdev, ⟨i, hi, hf⟩, hpresent⟩
      refine ⟨i, hi, mem_further.mpr ⟨?_, hpresent⟩⟩
      rw [hb, hdev, hf]
  have hfirst : (⟨b, dev, f⟩ : PciDevice) = ⟨bus, device, 0⟩ ↔ b = bus ∧ dev = device ∧ f = 0 :=
    PciDevice.mk.injEq .. ▸ Iff.rfl
  unfold PciHost.functionsAt
  by_cases hpresent : h.Present ⟨bus, device, 0⟩
  · rw [if_pos hpresent, List.mem_cons, hfirst]
    by_cases hmulti : h.Multifunction ⟨bus, device, 0⟩
    · rw [if_pos hmulti, hfurther]
      constructor
      · intro hd
        cases hd with
        | inl hd => exact ⟨hd.1, hd.2.1, hpresent, fun hne => absurd hd.2.2 hne⟩
        | inr hd => exact ⟨hd.1, hd.2.1, hpresent, fun _ => ⟨hmulti, hd.2.2.2⟩⟩
      · intro ⟨hb, hdev, _, hother⟩
        by_cases hf : f = 0
        · exact .inl ⟨hb, hdev, hf⟩
        · exact .inr ⟨hb, hdev, hf, (hother hf).2⟩
    · rw [if_neg hmulti]
      constructor
      · intro hd
        cases hd with
        | inl hd => exact ⟨hd.1, hd.2.1, hpresent, fun hne => absurd hd.2.2 hne⟩
        | inr hd => cases hd
      · intro ⟨hb, hdev, _, hother⟩
        by_cases hf : f = 0
        · exact .inl ⟨hb, hdev, hf⟩
        · exact absurd (hother hf).1 hmulti
  · rw [if_neg hpresent]
    constructor
    · intro hd
      cases hd
    · exact fun hd => absurd hd.2.2.1 hpresent

/-- The functions on a bus. -/
theorem mem_functions {bus : BitVec 8} {d : PciDevice} : d ∈ h.functions bus ↔ d.bus = bus ∧
    h.Present ⟨bus, d.device, 0⟩ ∧
      (d.function ≠ 0 → h.Multifunction ⟨bus, d.device, 0⟩ ∧ h.Present d) := by
  have hall : ∀ device : BitVec 5, ∃ i ∈ List.range 32, BitVec.ofNat 5 i = device := by decide
  unfold PciHost.functions
  rw [List.mem_flatMap]
  constructor
  · intro ⟨i, _, hd⟩
    obtain ⟨hbus, hdevice, hpresent, hother⟩ := mem_functionsAt.mp hd
    rw [← hdevice] at hpresent hother
    exact ⟨hbus, hpresent, hother⟩
  · intro ⟨hbus, hpresent, hother⟩
    obtain ⟨i, hi, hdevice⟩ := hall d.device
    refine ⟨i, hi, mem_functionsAt.mpr ?_⟩
    rw [hdevice]
    exact ⟨hbus, rfl, hpresent, hother⟩

/-- Each of them is there once. -/
theorem nodup_functions (h : PciHost) (bus : BitVec 8) : (h.functions bus).Nodup := by
  have hdevices : (List.range 32).Pairwise fun i j => BitVec.ofNat 5 i ≠ BitVec.ofNat 5 j := by
    decide
  have hnumbers : (List.range' 1 7).Pairwise fun i j => BitVec.ofNat 3 i ≠ BitVec.ofNat 3 j := by
    decide
  have hfurther : ∀ device, ((List.range' 1 7).flatMap (h.further bus device)).Nodup := by
    intro device
    refine List.nodup_flatMap.mpr ⟨fun i _ => ?_, hnumbers.imp fun hne d hd hd' => hne ?_⟩
    · unfold PciHost.further
      split
      · exact List.nodup_singleton _
      · exact List.nodup_nil
    · have heq := (mem_further.mp hd).1.symm.trans (mem_further.mp hd').1
      exact congrArg PciDevice.function heq
  refine List.nodup_flatMap.mpr ⟨fun i _ => ?_, hdevices.imp fun hne d hd hd' => hne ?_⟩
  · unfold PciHost.functionsAt
    split
    · refine List.nodup_cons.mpr ⟨fun hmem => ?_, ?_⟩
      · split at hmem
        · obtain ⟨i, hi, hmem⟩ := List.mem_flatMap.mp hmem
          have heq := congrArg PciDevice.function (mem_further.mp hmem).1
          exact (function_ne_zero_iff 0).mpr ⟨i, hi, heq⟩ rfl
        · cases hmem
      · split
        · exact hfurther _
        · exact List.nodup_nil
    · exact List.nodup_nil
  · exact (mem_functionsAt.mp hd).2.1.symm.trans (mem_functionsAt.mp hd').2.1

/-- A function can be found: from bus 0 bridges lead to it. -/
def PciHost.Found (h : PciHost) (d : PciDevice) : Prop :=
  ∃ d₀ ∈ h.functions 0, Reaches h.behind d₀ d

/-- No two bridges lead to the same bus. -/
def PciHost.BusesOnce (h : PciHost) : Prop :=
  ∀ d d', h.HasClass d 0x04 0x06 → h.HasClass d' 0x04 0x06 → h.secondaryBus d = h.secondaryBus d' →
    d = d'

theorem nodup_behind (h : PciHost) (d : PciDevice) : (h.behind d).Nodup := by
  unfold PciHost.behind
  split
  · exact nodup_functions h _
  · exact List.nodup_nil

/-- What is behind a function is on its secondary bus. -/
theorem of_behind {d d' : PciDevice} (hd : Behind h.behind d d') :
    h.HasClass d 0x04 0x06 ∧ h.secondaryBus d = d'.bus := by
  unfold Behind PciHost.behind at hd
  split at hd
  · next hbridge => exact ⟨hbridge, (mem_functions.mp hd).1.symm⟩
  · cases hd

theorem PciHost.BusesOnce.oneWay (honce : h.BusesOnce) : OneWay h.behind := by
  intro d d' x hd hd'
  obtain ⟨hbridge, hbus⟩ := of_behind hd
  obtain ⟨hbridge', hbus'⟩ := of_behind hd'
  exact honce d d' hbridge hbridge' (hbus.trans hbus'.symm)

/-- Functions of a bus are apart, unless there is a way round to the bus. -/
theorem PciHost.BusesOnce.apart (honce : h.BusesOnce) {bus : BitVec 8}
    (hacc : ∀ d ∈ h.functions bus, Acc (fun d' d => Behind h.behind d d') d) {a b x : PciDevice}
    (ha : a ∈ h.functions bus) (hb : b ∈ h.functions bus) (hax : Reaches h.behind a x)
    (hbx : Reaches h.behind b x) : a = b := by
  have hround : ∀ a ∈ h.functions bus, ∀ b ∈ h.functions bus, Reaches h.behind a b → a = b := by
    intro a ha b hb hab
    cases hab.cases_tail with
    | inl heq => exact heq.symm
    | inr hab =>
      obtain ⟨y, hay, hyb⟩ := hab
      obtain ⟨hbridge, hbus⟩ := of_behind hyb
      -- the bus of `b` is behind `y`, and so is `a`
      have hya : Behind h.behind y a := by
        unfold Behind PciHost.behind
        rw [if_pos hbridge, hbus, (mem_functions.mp hb).1]
        exact ha
      exact absurd (Relation.TransGen.tail' hay hya) (acc_irrefl (hacc a ha))
  cases honce.oneWay.total hax hbx with
  | inl hab => exact hround a ha b hb hab
  | inr hba => exact (hround b hb a ha hba).symm

/-- **The probe finds what there is.** It ends exactly if no bridges lead round, or on forever, from
    bus 0; then it has found the functions that bridges lead to and no others, and has called the
    driver for the Ethernet controllers among them, as often as it has found them; and where no two
    bridges lead to the same bus it has found each of them once. -/
theorem pci_probe_all_finds (h : PciHost) :
    ((∃ fuel p, pciProbeAll fuel h = some p) ↔
      ∀ d ∈ h.functions 0, Acc (fun d' d => Behind h.behind d d') d) ∧
    ∀ fuel p, pciProbeAll fuel h = some p →
      p.host.config = h.config ∧ (∀ d, d ∈ p.found ↔ h.Found d) ∧
      p.ethernet = (p.found.filter fun d => h.HasClass d 0x02 0x00) ∧
      (h.BusesOnce → p.found.Nodup) := by
  have hvisits : ∀ fuel, (∀ out, walkAll (treeWalk h.behind fuel) (h.functions 0) = some out →
      ∃ p, pciProbeAll fuel h = some p ∧ Probed h ⟨h, [], []⟩ out p) ∧
      (walkAll (treeWalk h.behind fuel) (h.functions 0) = none → pciProbeAll fuel h = none) :=
    fun fuel => Visits.bus (visits_probeFunction fuel) 0 ⟨h, [], []⟩ rfl
  have hwalk : ∀ fuel p, pciProbeAll fuel h = some p →
      ∃ out, walkAll (treeWalk h.behind fuel) (h.functions 0) = some out ∧
        Probed h ⟨h, [], []⟩ out p := by
    intro fuel p hp
    cases hout : walkAll (treeWalk h.behind fuel) (h.functions 0) with
    | none =>
      rw [(hvisits fuel).2 hout] at hp
      cases hp
    | some out =>
      obtain ⟨p', hp', hprobed⟩ := (hvisits fuel).1 out hout
      obtain rfl := Option.some.inj (hp.symm.trans hp')
      exact ⟨out, rfl, hprobed⟩
  refine ⟨?_, fun fuel p hp => ?_⟩
  · rw [← exists_walkAll_iff]
    constructor
    · intro ⟨fuel, p, hp⟩
      obtain ⟨out, hout, -⟩ := hwalk fuel p hp
      exact ⟨fuel, out, hout⟩
    · intro ⟨fuel, out, hout⟩
      obtain ⟨p, hp, -⟩ := (hvisits fuel).1 out hout
      exact ⟨fuel, p, hp⟩
  · obtain ⟨out, hout, hprobed⟩ := hwalk fuel p hp
    have hfound : p.found = out := hprobed.found.trans (List.nil_append _)
    have hethernet : p.ethernet = out.filter fun d => h.HasClass d 0x02 0x00 :=
      hprobed.ethernet.trans (List.nil_append _)
    rw [hfound, hethernet]
    refine ⟨hprobed.config, fun d => mem_walkAll_iff hout, rfl, fun honce => ?_⟩
    have hacc := exists_walkAll_iff.mp ⟨fuel, out, hout⟩
    obtain ⟨outs, houts, rfl⟩ := walkAll_eq_some_iff.mp hout
    exact nodup_walks (nodup_functions h 0) houts
      (fun _ _ _ hd => nodup_treeWalk honce.oneWay (nodup_behind h) hd)
      fun a ha b hb x hax hbx => honce.apart hacc ha hb hax hbx

end

end Refk
