import Spp.Nfv.Tables

/-!
# The names of devices

The `get_*_name` functions print an id into a template. Their buffers have room for three
digits, and a longer id is cut without a word. What the `add_*_pmd` functions ask DPDK for
is named by these texts.
-/

namespace Spp.Nfv

open CLib
open Spp.Vf (PortType)

section Source

/-- `get_vhost_iface_name`; its buffer holds twelve characters. -/
def getVhostIfaceName (id : ℤ) : CStr := ("/tmp/sock".toList ++ formatU id).take 12

/-- What `add_ring_pmd` looks up: the ring and the device that is made from it. -/
def addRingPmd (ringId : ℤ) : List CStr :=
  [getRxQueueName ringId, "net_ring_".toList ++ getRxQueueName ringId]

/-- The device arguments of `add_vhost_pmd`. -/
def addVhostPmd (enableVhostCli index : ℤ) : CStr :=
  getVhostBackendName index ++ ",iface=".toList ++ getVhostIfaceName index ++
    ",queues=".toList ++ formatD 1 ++ ",client=".toList ++ formatD enableVhostCli

/-- The device arguments of `add_pcap_pmd`, with the paths of its files. -/
def addPcapPmd (index : ℤ) : CStr :=
  getPcapPmdName index ++ ",rx_pcap=".toList ++
    ("/tmp/spp-rx".toList ++ formatD index ++ ".pcap".toList) ++ ",tx_pcap=".toList ++
    ("/tmp/spp-tx".toList ++ formatD index ++ ".pcap".toList)

/-- The device arguments of `add_null_pmd`. -/
def addNullPmd (index : ℤ) : CStr := getNullPmdName index

end Source

section Statement

/-- The functions that print an id, each with its template. -/
def nameFunctions : List (CStr × (ℤ → CStr)) :=
  [("eth_ring".toList, getRxQueueName), ("eth_vhost".toList, getVhostBackendName),
    ("/tmp/sock".toList, getVhostIfaceName), ("eth_pcap".toList, getPcapPmdName),
    ("eth_null".toList, getNullPmdName)]

/-- A template with an id in decimal. -/
def rendered (template : CStr) (id : ℤ) : CStr := template ++ Nat.toDigits 10 id.toNat

/-- What is asked of DPDK for an id is named after that id. -/
structure AsksForOwn (enableVhostCli id : ℤ) : Prop where
  ring : addRingPmd id = [rendered "eth_ring".toList id,
    "net_ring_".toList ++ rendered "eth_ring".toList id]
  vhost : addVhostPmd enableVhostCli id = rendered "eth_vhost".toList id ++ ",iface=".toList ++
    rendered "/tmp/sock".toList id ++ ",queues=".toList ++ formatD 1 ++ ",client=".toList ++
    formatD enableVhostCli
  pcap : addPcapPmd id = rendered "eth_pcap".toList id ++ ",rx_pcap=".toList ++
    (rendered "/tmp/spp-rx".toList id ++ ".pcap".toList) ++ ",tx_pcap=".toList ++
    (rendered "/tmp/spp-tx".toList id ++ ".pcap".toList)
  null : addNullPmd id = rendered "eth_null".toList id

/-- Every function gives the ids different names, each the decimal rendering of its template,
and the devices that are asked for are those of the ids. -/
structure NamesIdentify (i j : ℤ) : Prop where
  different : ∀ f ∈ nameFunctions, f.2 i ≠ f.2 j
  exact : ∀ f ∈ nameFunctions, f.2 i = rendered f.1 i ∧ f.2 j = rendered f.1 j
  own : ∀ enableVhostCli, AsksForOwn enableVhostCli i ∧ AsksForOwn enableVhostCli j

end Statement

section Names

variable {i j : ℤ}

/-- An id that is not negative is printed in decimal. -/
theorem formatU_of_nonneg (hi : 0 ≤ i ∧ i < 2 ^ 31) : formatU i = Nat.toDigits 10 i.toNat := by
  unfold formatU
  rw [Int.emod_eq_of_lt hi.1 (by omega)]

/-- The same for `%d`. -/
theorem formatD_of_nonneg (hi : 0 ≤ i) : formatD i = Nat.toDigits 10 i.toNat := by
  have habs : i.natAbs = i.toNat := by omega
  rw [formatD, if_neg (by omega), habs]

/-- Three digits are printed in full iff there are no more. -/
theorem take_template_iff {template : CStr} {size : ℕ} (hsize : size = template.length + 3)
    (hi : 0 ≤ i ∧ i < 2 ^ 31) :
    (template ++ formatU i).take size = rendered template i ↔ i < 1000 := by
  have hdigits : (Nat.toDigits 10 i.toNat).length ≤ 3 ↔ i.toNat < 10 ^ 3 :=
    Nat.length_toDigits_le_iff (by decide) (by decide)
  rw [formatU_of_nonneg hi, hsize, rendered, List.take_length_add_append,
    List.append_cancel_left_eq]
  constructor
  · intro htake
    have hlength := congrArg List.length htake
    rw [List.length_take] at hlength
    have hlt := hdigits.mp (by omega)
    omega
  · intro hlt
    exact List.take_of_length_le (hdigits.mpr (by omega))

/-- Different ids have different decimal renderings. -/
theorem rendered_ne (template : CStr) (hi : 0 ≤ i) (hj : 0 ≤ j) (hne : i ≠ j) :
    rendered template i ≠ rendered template j := by
  intro h
  have hdigits := List.append_cancel_left h
  have hvalue := congrArg (fun digits => Nat.ofDigitChars 10 digits 0) hdigits
  simp only [Nat.ofDigitChars_ten_toDigits] at hvalue
  omega

/-- Each function prints an id in full iff it has at most three digits. -/
theorem nameFunctions_exact (hi : 0 ≤ i ∧ i < 2 ^ 31) :
    ∀ f ∈ nameFunctions, (f.2 i = rendered f.1 i ↔ i < 1000) := by
  intro f hf
  simp only [nameFunctions, List.mem_cons, List.not_mem_nil, or_false] at hf
  rcases hf with rfl | rfl | rfl | rfl | rfl
  · exact take_template_iff (by decide) hi
  · exact take_template_iff (by decide) hi
  · exact take_template_iff (by decide) hi
  · exact take_template_iff (by decide) hi
  · exact take_template_iff (by decide) hi

/-- What is asked of DPDK for an id of at most three digits is named after it. -/
theorem asksForOwn_of_lt (hi : 0 ≤ i ∧ i < 2 ^ 31) (hlt : i < 1000) (enableVhostCli : ℤ) :
    AsksForOwn enableVhostCli i := by
  have hexact : ∀ f ∈ nameFunctions, f.2 i = rendered f.1 i :=
    fun f hf => (nameFunctions_exact hi f hf).mpr hlt
  have hring := hexact ("eth_ring".toList, getRxQueueName) (by simp [nameFunctions])
  have hvhost := hexact ("eth_vhost".toList, getVhostBackendName) (by simp [nameFunctions])
  have hiface := hexact ("/tmp/sock".toList, getVhostIfaceName) (by simp [nameFunctions])
  have hpcap := hexact ("eth_pcap".toList, getPcapPmdName) (by simp [nameFunctions])
  have hnull := hexact ("eth_null".toList, getNullPmdName) (by simp [nameFunctions])
  dsimp only at hring hvhost hiface hpcap hnull
  refine ⟨?_, ?_, ?_, hnull⟩
  · rw [addRingPmd, hring]
  · rw [addVhostPmd, hvhost, hiface]
  · rw [addPcapPmd, hpcap, formatD_of_nonneg hi.1]
    rfl

end Names

/-- Two ids are told apart by all names, and each name is that of its id, iff both have at
most three digits. -/
theorem namesIdentify_iff {i j : ℤ} (hi : 0 ≤ i ∧ i < 2 ^ 31) (hj : 0 ≤ j ∧ j < 2 ^ 31)
    (hne : i ≠ j) : NamesIdentify i j ↔ i < 1000 ∧ j < 1000 := by
  have hmem : ("eth_ring".toList, getRxQueueName) ∈ nameFunctions := List.mem_cons_self
  constructor
  · intro h
    obtain ⟨hexact, hexact'⟩ := h.exact _ hmem
    exact ⟨(nameFunctions_exact hi _ hmem).mp hexact, (nameFunctions_exact hj _ hmem).mp hexact'⟩
  · rintro ⟨hlt, hlt'⟩
    have hexact := fun f hf => (nameFunctions_exact hi f hf).mpr hlt
    have hexact' := fun f hf => (nameFunctions_exact hj f hf).mpr hlt'
    refine ⟨fun f hf => ?_, fun f hf => ⟨hexact f hf, hexact' f hf⟩, fun client => ?_⟩
    · rw [hexact f hf, hexact' f hf]
      exact rendered_ne f.1 hi.1 hj.1 hne
    · exact ⟨asksForOwn_of_lt hi hlt client, asksForOwn_of_lt hj hlt' client⟩

/-- Two ids of three digits. -/
theorem namesIdentify_threeDigits : NamesIdentify 123 999 :=
  (namesIdentify_iff (by decide) (by decide) (by decide)).mpr (by decide)

/-- The vhost device of id 1234 has the name of that of id 123. -/
theorem not_namesIdentify_fourDigits : ¬ NamesIdentify 123 1234 := by
  intro h
  exact h.different ("eth_vhost".toList, getVhostBackendName) (by simp [nameFunctions]) (by decide)

end Spp.Nfv
