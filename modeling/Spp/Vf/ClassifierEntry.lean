import Spp.Vf.TokenValues
import Spp.Vf.ClassifierMac
import Spp.Vf.CommandSpec

/-!
# Entries of the classifier table

An entry of a port is a VLAN id or none with a MAC address or `default`. The
class id of a port encodes it in a VLAN id and a MAC address, in which some
values have a second meaning. A regular entry uses none of these, and its
requests are decoded and executed by one comparison of the class id.
-/

namespace Spp.Vf

open CLib

section Entries

/-- The address of an entry: the default of its VLAN, or a literal one. -/
inductive EntryMac
  | default
  | address (mac : ℕ)
  deriving DecidableEq, Repr

/-- An entry of the classifier table, of type `vlan` if it has a VLAN id. -/
structure ClassifierEntry where
  vlan : Option ℕ
  mac : EntryMac
  deriving DecidableEq, Repr

/-- The address that stands for the one of an entry. -/
def EntryMac.value : EntryMac → ℕ
  | .default => sppDefaultClassifiedDmyAddr
  | .address mac => mac

/-- The VLAN id that stands for the one of an entry. -/
def ClassifierEntry.vid (e : ClassifierEntry) : ℕ := e.vlan.getD vlanUntaggedVid

/-- The VLAN id and the address in the class id of a port with an entry or none. -/
def encodeEntry : Option ClassifierEntry → ℤ × ℕ
  | none => (ethVlanIdMax, 0)
  | some e => (e.vid, e.mac.value)

/-- An entry of a 12-bit VLAN id and a 48-bit address. -/
def ClassifierEntry.InRange (e : ClassifierEntry) : Prop :=
  (∀ v, e.vlan = some v → v ≤ 0xfff) ∧ ∀ a, e.mac = .address a → a < 2 ^ 48

/-- An entry that uses no reserved value: not the VLAN id of untagged frames,
not the address of an empty class id and not the one that stands for `default`. -/
def ClassifierEntry.Regular (e : ClassifierEntry) : Prop :=
  e.vlan ≠ some vlanUntaggedVid ∧ e.mac ≠ .address 0 ∧
    e.mac ≠ .address sppDefaultClassifiedDmyAddr

/-- What the classifier takes a class id for. -/
def readEntry (classId : ClassIdentifier) : Option ClassifierEntry :=
  if classId.macAddr = 0 then none
  else some
    { vlan := if classId.vid = ethVlanIdMax then none else some classId.vid.toNat
      mac := if classId.macAddr = sppDefaultClassifiedDmyAddr then .default
        else .address classId.macAddr }

/-- The class id of a port with a regular entry or none. The text kept beside
an address denotes it. -/
structure Stored (classId : ClassIdentifier) (e : Option ClassifierEntry) : Prop where
  pair : (classId.vid, classId.macAddr) = encodeEntry e
  inRange : ∀ e', e = some e' → e'.InRange ∧ e'.Regular
  text : ∀ e', e = some e' → sppChangeMacStrToInt64 classId.macAddrStr = .ok classId.macAddr
  empty : e = none → classId.macAddrStr = []

/-- An entry of a regular address has an address other than 0. -/
theorem ClassifierEntry.Regular.value_ne {e : ClassifierEntry} (h : e.Regular) :
    e.mac.value ≠ 0 := by
  obtain ⟨-, hzero, -⟩ := h
  cases hmac : e.mac with
  | default => decide
  | address a => exact fun ha => hzero (by rw [hmac]; exact congrArg _ ha)

/-- The classifier reads back a class id that encodes a regular entry. -/
theorem readEntry_of_encode {classId : ClassIdentifier} {e : Option ClassifierEntry}
    (hpair : (classId.vid, classId.macAddr) = encodeEntry e)
    (hregular : ∀ e', e = some e' → e'.Regular) : readEntry classId = e := by
  cases e with
  | none =>
    have haddr : classId.macAddr = 0 := congrArg Prod.snd hpair
    rw [readEntry, if_pos haddr]
  | some e =>
    obtain ⟨hvlan, hzero, hdummy⟩ := hregular e rfl
    have hvid : classId.vid = e.vid := congrArg Prod.fst hpair
    have haddr : classId.macAddr = e.mac.value := congrArg Prod.snd hpair
    obtain ⟨vlan, mac⟩ := e
    have hvlan' : (if classId.vid = ethVlanIdMax then none else some classId.vid.toNat) = vlan := by
      cases vlan with
      | none =>
        rw [if_pos]
        exact hvid
      | some v =>
        have hne : v ≠ vlanUntaggedVid := fun heq => hvlan (congrArg some heq)
        have hv : classId.vid = v := hvid
        rw [if_neg, hv, Int.toNat_natCast]
        rw [hv]
        unfold ethVlanIdMax
        unfold vlanUntaggedVid at hne
        omega
    have hmac' : (if classId.macAddr = sppDefaultClassifiedDmyAddr then EntryMac.default
        else .address classId.macAddr) = mac := by
      cases mac with
      | default =>
        rw [if_pos]
        exact haddr
      | address a =>
        have ha : classId.macAddr = a := haddr
        rw [if_neg, ha]
        rw [ha]
        exact fun heq => hdummy (congrArg EntryMac.address heq)
    rw [readEntry, if_neg (haddr ▸ (ClassifierEntry.Regular.value_ne ⟨hvlan, hzero, hdummy⟩)),
      hvlan', hmac']

/-- The encoding tells regular entries and the absence of one apart. -/
theorem encodeEntry_inj {e e' : Option ClassifierEntry} (he : ∀ x, e = some x → x.Regular)
    (he' : ∀ x, e' = some x → x.Regular) : encodeEntry e = encodeEntry e' ↔ e = e' := by
  refine ⟨fun h => ?_, fun h => h ▸ rfl⟩
  let classId : ClassIdentifier := { vid := (encodeEntry e).1, macAddr := (encodeEntry e).2 }
  calc e = readEntry classId := (readEntry_of_encode rfl he).symm
    _ = e' := readEntry_of_encode h he'

/-- Transmit port `i` with an entry or none in the tables of a classifier: the
default of its VLAN, or the value of an address in the table of its VLAN. -/
def enterEntry {τ : Type} (hash : RteHash τ) (memory : Bool) (i : ℕ) :
    Option ClassifierEntry → CmpInfo τ → Ret × CmpInfo τ
  | none, cmpInfo => (.ok, cmpInfo)
  | some e, cmpInfo =>
    match macClassification hash memory cmpInfo e.vid with
    | none => (.ng, cmpInfo)
    | some macCls =>
      let macCls := { macCls with activeClassifieds := macCls.activeClassifieds ++ [i] }
      let cmpInfo := { cmpInfo with macAddrEntry := 1 }
      match e.mac with
      | .default => (.ok, cmpInfo.setMac e.vid { macCls with defaultClassified := i })
      | .address mac =>
        match hash.addKeyData macCls.classificationTab mac i with
        | none => (.ng, cmpInfo.setMac e.vid macCls)
        | some tab => (.ok, cmpInfo.setMac e.vid { macCls with classificationTab := tab })

/-- The VLAN id under which an entry that was read is entered. -/
theorem vid_readEntry {classId : ClassIdentifier} {e : ClassifierEntry}
    (hvid : 0 ≤ classId.vid ∧ classId.vid ≤ 0xfff) (h : readEntry classId = some e) :
    e.vid = (classId.vid % 2 ^ 16).toNat := by
  unfold readEntry at h
  split at h
  · cases h
  · cases h
    rw [Int.emod_eq_of_lt hvid.1 (by omega)]
    unfold ClassifierEntry.vid
    dsimp only
    split
    · rename_i heq
      rw [heq]
      rfl
    · rfl

/-- A classifier enters a transmit port under the entry that it takes the
port's class id for. -/
theorem initTxPort_readEntry {τ : Type} (hash : RteHash τ) (memory : Bool) (i : ℕ)
    (txPort : PortInfo) (cmpInfo : CmpInfo τ)
    (hvid : 0 ≤ txPort.classId.vid ∧ txPort.classId.vid ≤ 0xfff)
    (haddr : txPort.classId.macAddr < 2 ^ 48) :
    initTxPort hash memory i txPort cmpInfo =
      enterEntry hash memory i (readEntry txPort.classId)
        { cmpInfo with
          classifiedDataTx := Function.update cmpInfo.classifiedDataTx i
            { ifaceType := txPort.ifaceType, ifaceNo := i, ifaceNoGlobal := txPort.ifaceNo
              port := (txPort.dpdkPort % 2 ^ 16).toNat } } := by
  cases hread : readEntry txPort.classId with
  | none =>
    have hzero : txPort.classId.macAddr = 0 := by
      unfold readEntry at hread
      split at hread
      · assumption
      · cases hread
    unfold initTxPort enterEntry
    exact if_pos hzero
  | some e =>
    have hkey := vid_readEntry hvid hread
    unfold readEntry at hread
    split at hread
    · cases hread
    rename_i hne
    unfold initTxPort enterEntry
    cases hread
    simp only [hkey, if_neg hne]
    cases macClassification hash memory
        { cmpInfo with
          classifiedDataTx := Function.update cmpInfo.classifiedDataTx i
            { ifaceType := txPort.ifaceType, ifaceNo := i, ifaceNoGlobal := txPort.ifaceNo
              port := (txPort.dpdkPort % 2 ^ 16).toNat } }
        (txPort.classId.vid % 2 ^ 16).toNat with
    | none => rfl
    | some macCls =>
      by_cases hdummy : txPort.classId.macAddr = sppDefaultClassifiedDmyAddr
      · simp only [hdummy, if_true]
      · cases hadd : hash.addKeyData macCls.classificationTab txPort.classId.macAddr i with
        | none => simp only [if_neg hdummy, Nat.mod_eq_of_lt haddr, hadd]
        | some tab => simp only [if_neg hdummy, Nat.mod_eq_of_lt haddr, hadd]

end Entries

section Requests

/-- What a `classifier_table` request does with its entry. -/
inductive TableAction
  | add
  | del
  deriving DecidableEq, Repr

/-- A documented `classifier_table` request. -/
structure TableRequest where
  action : TableAction
  entry : ClassifierEntry
  port : PortRef
  deriving DecidableEq, Repr

/-- The token of an action. -/
def TableAction.word : TableAction → CStr
  | .add => "add".toList
  | .del => "del".toList

/-- The decoded action. -/
def TableAction.commandAction : TableAction → CommandAction
  | .add => .add
  | .del => .del

/-- The entry that a port has for the request to be carried out. -/
def TableRequest.before (q : TableRequest) : Option ClassifierEntry :=
  match q.action with
  | .add => none
  | .del => some q.entry

/-- The entry that it then gets. -/
def TableRequest.after (q : TableRequest) : Option ClassifierEntry :=
  match q.action with
  | .add => some q.entry
  | .del => none

/-- The type of the ports of an array. -/
def IfaceArray.type : IfaceArray → PortType
  | .nic => .phy
  | .vhost => .vhost
  | .ring => .ring

/-- The type and number by which a request refers to a port. -/
def PortRef.index (port : PortRef) : PortIndex := ⟨port.array.type, port.no⟩

/-- The token of an address: `default` or six hexadecimal fields. -/
def WritesMac (word : CStr) : EntryMac → Prop
  | .default => word = "default".toList
  | .address mac => (word.splitOn ':').length = etherAddrLen ∧
      (∀ f ∈ word.splitOn ':', IsHexField f) ∧ macValue word = mac

/-- The tokens of an entry. -/
inductive EntryWords : ClassifierEntry → List CStr → Prop
  | mac {word : CStr} {mac : EntryMac} (hmac : WritesMac word mac) :
      EntryWords ⟨none, mac⟩ ["mac".toList, word]
  | vlan {vid word : CStr} {v : ℕ} {mac : EntryMac} (hvid : intLiteral vid = some (v : ℤ))
      (hle : v ≤ 0xfff) (hmac : WritesMac word mac) :
      EntryWords ⟨some v, mac⟩ ["vlan".toList, vid, word]

/-- The text of a request: its tokens, which fit the buffers of the decoder, and
a port of the interface table. -/
structure Asks (L : Limits) (text : CStr) (q : TableRequest) : Prop where
  fits : text.length < sppCmdMaxParameters * sppCmdValueBufsz
  port_lt : q.port.no < L.maxEthports ∧ q.port.no < 2 ^ 31
  tokens : ∃ words uid, EntryWords q.entry words ∧ DenotesPort uid q.port.index ∧
    uid.length < sppCmdValueBufsz ∧
    strtok ' ' text = "classifier_table".toList :: q.action.word :: (words ++ [uid])

/-- The port was added, and its class id encodes the entry that it is to have. -/
def Admits (s : MngData) (q : TableRequest) : Prop :=
  (s.iface q.port).ifaceType ≠ .undef ∧
    ((s.iface q.port).classId.vid, (s.iface q.port).classId.macAddr) = encodeEntry q.before

instance (s : MngData) (q : TableRequest) : Decidable (Admits s q) := by
  unfold Admits
  infer_instance

/-- The entry of a request is in range. -/
theorem EntryWords.inRange {e : ClassifierEntry} {words : List CStr} (h : EntryWords e words) :
    e.InRange := by
  have hmac : ∀ {word : CStr} {mac : EntryMac}, WritesMac word mac →
      ∀ a, mac = .address a → a < 2 ^ 48 := by
    rintro word mac hwrites a rfl
    obtain ⟨hlength, hfields, rfl⟩ := hwrites
    exact (sppChangeMacStrToInt64_eq hlength hfields).2.1
  cases h with
  | mac hword =>
    refine ⟨fun v hv => ?_, hmac hword⟩
    cases hv
  | vlan _ hle hword =>
    refine ⟨fun v hv => ?_, hmac hword⟩
    cases hv
    exact hle

/-- The address of an entry in range. -/
theorem ClassifierEntry.InRange.value_lt {e : ClassifierEntry} (h : e.InRange) :
    e.mac.value < 2 ^ 48 := by
  cases hmac : e.mac with
  | default => decide
  | address a => exact h.2 a hmac

/-- The address that the decoder keeps for a token has the value of the entry. -/
theorem WritesMac.macText {word : CStr} {mac : EntryMac} (h : WritesMac word mac) :
    sppChangeMacStrToInt64 (macText word) = .ok (mac.value : ℤ) ∧
      (macText word).length < sppMinStrLen := by
  cases mac with
  | default =>
    obtain rfl : word = "default".toList := h
    exact ⟨by decide, by decide⟩
  | address a =>
    obtain ⟨hlength, hfields, rfl⟩ := h
    have hne : word ≠ "default".toList := by
      rintro rfl
      revert hlength
      decide
    obtain ⟨hvalue, -, hshort⟩ := sppChangeMacStrToInt64_eq hlength hfields
    rw [Spp.Vf.macText, if_neg hne]
    exact ⟨hvalue, hshort⟩

/-- The token of an address is decoded to its text. -/
theorem WritesMac.decode {word : CStr} {mac : EntryMac} (h : WritesMac word mac)
    (table : CommandClassifierTable) :
    decodeMacAddrStrValue table word = .ok { table with mac := Spp.Vf.macText word } := by
  obtain ⟨hvalue, hshort⟩ := h.macText
  have hcopy : strcpy sppCmdValueBufsz (Spp.Vf.macText word) = .ok (Spp.Vf.macText word) := by
    refine strcpy_eq_ok.mpr ⟨?_, rfl⟩
    unfold sppCmdValueBufsz
    unfold sppMinStrLen at hshort
    omega
  have hnonneg : ¬ ((mac.value : ℤ) < 0) := by omega
  unfold Spp.Vf.macText at hvalue hcopy ⊢
  simp only [decodeMacAddrStrValue, hvalue, hcopy, bind, Except.bind,
    if_neg hnonneg]

/-- The entry of the interface table that a request refers to. -/
theorem getIfaceInfo_index {L : Limits} {port : PortRef} (h : port.no < L.maxEthports) :
    getIfaceInfo L port.array.type port.no = .ok (some port) := by
  obtain ⟨array, no⟩ := port
  have hrange : (0 : ℤ) ≤ no ∧ (no : ℤ) < L.maxEthports := by
    dsimp only at h
    omega
  cases array <;> simp only [getIfaceInfo, IfaceArray.type, if_pos hrange, Int.toNat_natCast]

/-- The command of a request carries its action, entry and port. -/
structure Carries (c : CommandClassifierTable) (q : TableRequest) : Prop where
  action : c.action = q.action.commandAction
  vid : c.vid = q.entry.vid
  mac : sppChangeMacStrToInt64 c.mac = .ok (q.entry.mac.value : ℤ)
  mac_length : c.mac.length < sppMinStrLen
  port : c.port = q.port.index

variable {L : Limits} {M : SppModule} {s : MngData} {q : TableRequest}

/-- The last token of a request is accepted iff the class id of the port encodes
the entry that the port is to have. -/
theorem decodeClassifierPortValue_eq (table : CommandClassifierTable) {uid : CStr}
    (hport : DenotesPort uid q.port.index)
    (hlt : q.port.no < L.maxEthports ∧ q.port.no < 2 ^ 31)
    (haction : table.action = q.action.commandAction)
    (hvid : (if table.type = .mac then ethVlanIdMax else table.vid) = q.entry.vid)
    (hmac : sppChangeMacStrToInt64 table.mac = .ok (q.entry.mac.value : ℤ))
    (hvalue : q.entry.mac.value < 2 ^ 48) :
    decodeClassifierPortValue L s table uid =
      if Admits s q then .ok { table with vid := q.entry.vid, port := q.port.index }
      else .error .ng := by
  have hconvert : sppConvertPortToIface uid = .ok q.port.index :=
    sppConvertPortToIface_of_denotes hport (by
      show -2 ^ 31 ≤ (q.port.no : ℤ) ∧ (q.port.no : ℤ) < 2 ^ 31
      omega)
  have hentry : ifaceEntry L q.port.index.ifaceType q.port.index.ifaceNo = .ok q.port := by
    show ifaceEntry L q.port.array.type q.port.no = .ok q.port
    rw [ifaceEntry, getIfaceInfo_index hlt.1]
  have hnat : macToUInt64 (q.entry.mac.value : ℤ) = q.entry.mac.value := by
    unfold macToUInt64
    omega
  have hnonneg : ¬ ((q.entry.mac.value : ℤ) < 0) := by omega
  obtain ⟨action, type, vid, mac, port⟩ := table
  have htable : (if type = .mac then
      { action := action, type := type, vid := ethVlanIdMax, mac := mac, port := port }
        else { action := action, type := type, vid := vid, mac := mac, port := port }) =
      ({ action := action, type := type, vid := q.entry.vid, mac := mac, port := port } :
        CommandClassifierTable) := by
    rw [← hvid]
    split <;> rfl
  dsimp only at haction hmac
  subst haction
  simp only [decodeClassifierPortValue, hconvert, hentry, bind, Except.bind, htable, hmac, hnat,
    if_neg hnonneg, sppCheckAddedPort, sppCheckClassidUsedPort]
  by_cases hadded : (s.iface q.port).ifaceType = .undef
  · rw [if_pos (by simp [hadded]), if_neg (fun h : Admits s q => h.1 hadded)]
  have hadmits : ∀ e, q.before = e → (Admits s q ↔
      (encodeEntry e).2 = (s.iface q.port).classId.macAddr ∧
        (encodeEntry e).1 = (s.iface q.port).classId.vid) := by
    rintro e rfl
    unfold Admits
    rw [Prod.ext_iff]
    tauto
  rw [if_neg (by simpa using hadded)]
  cases haction : q.action with
  | add =>
    have hbefore := hadmits none (by rw [TableRequest.before, haction])
    by_cases hadm : Admits s q
    · rw [if_pos hadm]
      simp [TableAction.commandAction, ← (hbefore.mp hadm).1, ← (hbefore.mp hadm).2, encodeEntry]
    · rw [if_neg hadm]
      have hused := mt hbefore.mpr hadm
      simp only [encodeEntry] at hused
      simp [TableAction.commandAction, hused]
  | del =>
    have hbefore := hadmits (some q.entry) (by rw [TableRequest.before, haction])
    by_cases hadm : Admits s q
    · rw [if_pos hadm]
      simp [TableAction.commandAction, ← (hbefore.mp hadm).1, ← (hbefore.mp hadm).2, encodeEntry]
    · rw [if_neg hadm]
      have hused := mt hbefore.mpr hadm
      simp only [encodeEntry] at hused
      simp [TableAction.commandAction, hused]

/-- A `classifier_table` request of five tokens goes to the handlers of a MAC entry. -/
theorem decodeRequest_five {text : CStr} {args : List CStr}
    (hfits : text.length < sppCmdMaxParameters * sppCmdValueBufsz)
    (htokens : strtok ' ' text = "classifier_table".toList :: args) (hargs : args.length = 4) :
    sppCommandDecodeRequest L M s text = decodeCommandParameterClsTable L s args := by
  have hname : ¬ "classifier_table".toList ≠ "classifier_table".toList := fun h => h rfl
  simp only [sppCommandDecodeRequest, decodeCommandInList, strcpy_eq_ok.mpr ⟨hfits, rfl⟩, htokens,
    List.length_cons, hargs]
  rw [if_neg (by decide), commandList, searchCommandList, if_neg hname, if_neg]
  dsimp only
  omega

/-- A request of six tokens goes to the handlers of a VLAN entry. -/
theorem decodeRequest_six {text : CStr} {args : List CStr}
    (hfits : text.length < sppCmdMaxParameters * sppCmdValueBufsz)
    (htokens : strtok ' ' text = "classifier_table".toList :: args) (hargs : args.length = 5) :
    sppCommandDecodeRequest L M s text = decodeCommandParameterClsTableVlan L s args := by
  have hname : ¬ "classifier_table".toList ≠ "classifier_table".toList := fun h => h rfl
  simp only [sppCommandDecodeRequest, decodeCommandInList, strcpy_eq_ok.mpr ⟨hfits, rfl⟩, htokens,
    List.length_cons, hargs]
  have hfive : args.length + 1 < 5 ∨ 5 < args.length + 1 := by omega
  have hsix : ¬ (args.length + 1 < 6 ∨ 6 < args.length + 1) := by omega
  rw [if_neg (by decide), commandList, searchCommandList, if_neg hname, if_pos hfive,
    searchCommandList, if_neg hname, if_neg hsix]

/-- The action of a request is decoded from its token. -/
theorem decodeClassifierActionValue_eq (table : CommandClassifierTable) (action : TableAction) :
    decodeClassifierActionValue table action.word =
      .ok { table with action := action.commandAction } := by
  cases action <;> rfl

/-- A resource UID that fits its buffer is reported as the value in error. -/
theorem setStringValueDecodeError_eq {value : CStr} (h : value.length < sppCmdValueBufsz)
    (name : String) : ∃ e, setStringValueDecodeError value name = .error e := by
  rw [setStringValueDecodeError, strcpy_eq_ok.mpr ⟨h, rfl⟩]
  exact ⟨_, rfl⟩

/-- A request to add or delete is decoded to its command iff the port admits
it; otherwise the decoder reports an error. -/
theorem Asks.decode {text : CStr} (h : Asks L text q) (M : SppModule) (s : MngData) :
    (Admits s q → ∃ c, Carries c q ∧
      (sppCommandDecodeRequest L M s text = .ok (.classifierTableMac c) ∨
        sppCommandDecodeRequest L M s text = .ok (.classifierTableVlan c))) ∧
      (¬ Admits s q → ∃ e, sppCommandDecodeRequest L M s text = .error (.error e)) := by
  obtain ⟨hfits, hport_lt, words, uid, hwords, huid, hshort, htokens⟩ := h
  have hvalue := hwords.inRange.value_lt
  obtain ⟨e, herror⟩ := setStringValueDecodeError_eq hshort "port"
  obtain ⟨action, entry, port⟩ := q
  dsimp only at hwords hport_lt huid htokens hvalue
  cases hwords with
  | mac hmac =>
    rename_i word mac
    have hlast := decodeClassifierPortValue_eq (q := ⟨action, ⟨none, mac⟩, port⟩) (s := s)
      ⟨action.commandAction, .mac, 0, macText word, {}⟩ huid hport_lt rfl rfl hmac.macText.1 hvalue
    rw [decodeRequest_five hfits htokens rfl]
    simp only [decodeCommandParameterClsTable, parameterListMac, decodeCommandParameter,
      decodeClassifierActionValue_eq, hmac.decode, List.cons_append, List.nil_append,
      show ∀ table : CommandClassifierTable, decodeClassifierTypeValue table "mac".toList =
        .ok { table with type := .mac } from fun _ => rfl, hlast]
    refine ⟨fun hadm => ?_, fun hadm => ?_⟩
    · rw [if_pos hadm]
      exact ⟨_, ⟨rfl, rfl, hmac.macText.1, hmac.macText.2, rfl⟩, .inl rfl⟩
    · rw [if_neg hadm, herror]
      exact ⟨e, rfl⟩
  | vlan hvid hle hmac =>
    rename_i vid word v mac
    have hlast := decodeClassifierPortValue_eq (q := ⟨action, ⟨some v, mac⟩, port⟩) (s := s)
      ⟨action.commandAction, .vlan, v, macText word, {}⟩ huid hport_lt rfl rfl hmac.macText.1 hvalue
    have hint : getIntValue vid 0 ethVlanIdMax = .ok (v : ℤ) := by
      apply getIntValue_of_literal hvid
      · omega
      · unfold ethVlanIdMax
        omega
    rw [decodeRequest_six hfits htokens rfl]
    simp only [decodeCommandParameterClsTableVlan, parameterListVlan, decodeCommandParameter,
      decodeClassifierActionValue_eq, decodeClassifierVidValue, hint, hmac.decode, bind,
      Except.bind, List.cons_append, List.nil_append,
      show ∀ table : CommandClassifierTable, decodeClassifierTypeValue table "vlan".toList =
        .ok { table with type := .vlan } from fun _ => rfl, hlast]
    refine ⟨fun hadm => ?_, fun hadm => ?_⟩
    · rw [if_pos hadm]
      exact ⟨_, ⟨rfl, rfl, hmac.macText.1, hmac.macText.2, rfl⟩, .inr rfl⟩
    · rw [if_neg hadm, herror]
      exact ⟨e, rfl⟩

end Requests

section Execute

variable {L : Limits} {M : SppModule} {s : MngData} {q : TableRequest}

/-- The class id that a request leaves, with the text of its address. -/
def TableRequest.classId (q : TableRequest) (macAddrStr : CStr) : ClassIdentifier :=
  match q.action with
  | .add => { macAddr := q.entry.mac.value, macAddrStr := macAddrStr, vid := q.entry.vid }
  | .del => { macAddr := 0, macAddrStr := [], vid := ethVlanIdMax }

/-- An added port is in the interface table under its type and number. -/
def Placed (L : Limits) (s : MngData) (port : PortRef) : Prop :=
  (s.iface port).ifaceNo = port.no ∧ ((s.iface port).ifaceType ≠ .undef →
    (s.iface port).ifaceType = port.array.type ∧ port.no < L.maxEthports)

/-- The tables with the class id of one port replaced. -/
def MngData.withClassId (s : MngData) (port : PortRef) (classId : ClassIdentifier) : MngData :=
  s.setIface port { s.iface port with classId := classId }

/-- The class id of a request is that of a port with the entry it leaves. -/
theorem stored_classId {macAddrStr : CStr} (hrange : q.entry.InRange) (hregular : q.entry.Regular)
    (hmac : sppChangeMacStrToInt64 macAddrStr = .ok (q.entry.mac.value : ℤ)) :
    Stored (q.classId macAddrStr) q.after := by
  unfold TableRequest.classId TableRequest.after
  cases q.action with
  | add =>
    refine ⟨rfl, fun e he => ?_, fun e he => hmac, fun h => by cases h⟩
    cases he
    exact ⟨hrange, hregular⟩
  | del => exact ⟨rfl, fun e he => (by cases he), fun e he => (by cases he), fun _ => rfl⟩

/-- The command of a request that the port admits stores its class id, and at
most flags the component that transmits on the port. -/
theorem sppUpdateClassifierTable_carries {c : CommandClassifierTable} (hc : Carries c q)
    (hadm : Admits s q) (hplaced : Placed L s q.port) (hrange : q.entry.InRange) :
    ∃ s₁, sppUpdateClassifierTable L s c = .ok s₁ ∧
      (s₁ = s.withClassId q.port (q.classId c.mac) ∨
        ∃ id, s₁ = (s.withClassId q.port (q.classId c.mac)).setChangeComponent id true) := by
  obtain ⟨hno, htyped⟩ := hplaced
  obtain ⟨htype, hlt⟩ := htyped hadm.1
  have hlook : getIfaceInfo L c.port.ifaceType c.port.ifaceNo = .ok (some q.port) := by
    rw [hc.port]
    exact getIfaceInfo_index hlt
  have hne : ¬ ((q.entry.mac.value : ℤ) = -1) := by omega
  have hvalue := hrange.value_lt
  have hnat : macToUInt64 (q.entry.mac.value : ℤ) = q.entry.mac.value := by
    unfold macToUInt64
    omega
  -- The port is found again when its component is looked for.
  have hflag : ∃ s₁, setComponentChangePort L (s.withClassId q.port (q.classId c.mac)) q.port .tx =
      .ok s₁ := by
    have hsame : getIfaceInfo L ((s.withClassId q.port (q.classId c.mac)).iface q.port).ifaceType
        ((s.withClassId q.port (q.classId c.mac)).iface q.port).ifaceNo = .ok (some q.port) := by
      simp only [MngData.withClassId, MngData.setIface_iface, Function.update_self, htype, hno]
      exact getIfaceInfo_index hlt
    unfold setComponentChangePort sppCheckUsedPort
    rw [hsame]
    dsimp only
    split
    · rename_i heq
      cases heq
    · exact ⟨_, rfl⟩
    · exact ⟨_, rfl⟩
  obtain ⟨s₁, hs₁⟩ := hflag
  have hpair := Prod.ext_iff.mp hadm.2
  have hupdate : sppUpdateClassifierTable L s c = .ok s₁ := by
    simp only [sppUpdateClassifierTable, hc.mac, hlook, bind, Except.bind, if_neg hne,
      if_neg hadm.1, hnat, hc.action, hc.vid]
    unfold TableRequest.before at hpair
    unfold TableRequest.classId at hs₁
    cases haction : q.action with
    | add =>
      rw [haction] at hpair hs₁
      simp only [encodeEntry] at hpair
      simp only [TableAction.commandAction, hpair, strcpy_eq_ok.mpr ⟨hc.mac_length, rfl⟩,
        ne_eq, not_true_eq_false, if_false]
      exact hs₁
    | del =>
      rw [haction] at hpair hs₁
      simp only [encodeEntry] at hpair
      simp only [TableAction.commandAction, hpair, ne_eq, not_true_eq_false, and_false, if_false]
      exact hs₁
  refine ⟨s₁, hupdate, ?_⟩
  rcases setComponentChangePort_cases hs₁ with heq | ⟨id, -, -, heq⟩
  · exact .inl heq
  · exact .inr ⟨id, heq⟩

end Execute

end Spp.Vf
