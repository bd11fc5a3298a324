import Cheops.Lib.BitField
import Cheops.OsScan.Command

/-! # OS scans: the settings dialog (`gui-settings.c`)

The GUI keeps every option of an OS scan twice: as the dialog shows it, and as a field of the
word `options_os_scan_flags` that `runNmapScan` takes apart.  `apply_all_settings` rebuilds the
word from the dialog; `applyAllSettings_agrees_iff` says for which dialogs the command is the one
the dialog shows.
-/

namespace Cheops.OsScan

open Cheops.Lib Cheops.Event

/-! ## The options -/

/-- The options `apply_the_setting` looks at, with the strings up to their NULs. -/
structure Options where
  discoverRetries : Int
  osScanUdpScan : Int
  osScanTcpScan : List UInt8
  osScanFastscan : Int
  osScanOsscan : Int
  osScanScanSpecifiedPorts : Int
  osScanDontPing : Int
  osScanTiming : List UInt8
  osScanRpcScan : Int
  osScanIdentdScan : Int
deriving DecidableEq, Repr

inductive Effect where
  /-- An `EVENT_SET_SETTINGS` to the agent of every page. -/
  | setSettings (discoverRetries : Int) (flags : Nat)
  /-- `page_object_display` of every object. -/
  | display
deriving DecidableEq, Repr

structure Settings where
  options : Options
  osScanFlags : BitVec 32
  effects : List Effect

@[match_pattern] def OPTIONS_DISCOVER_RETRIES : Nat := 1
@[match_pattern] def OPTIONS_USE_IP_FOR_LABEL : Nat := 7
@[match_pattern] def OPTIONS_OS_SCAN_UDP_SCAN : Nat := 13
@[match_pattern] def OPTIONS_OS_SCAN_TCP_SCAN : Nat := 14
@[match_pattern] def OPTIONS_OS_SCAN_FASTSCAN : Nat := 15
@[match_pattern] def OPTIONS_OS_SCAN_OSSCAN : Nat := 16
@[match_pattern] def OPTIONS_OS_SCAN_SCAN_SPECIFIED_PORTS : Nat := 17
@[match_pattern] def OPTIONS_OS_SCAN_DONT_PING : Nat := 18
@[match_pattern] def OPTIONS_OS_SCAN_TIMING : Nat := 21
@[match_pattern] def OPTIONS_OS_SCAN_RPC_SCAN : Nat := 22
@[match_pattern] def OPTIONS_OS_SCAN_IDENTD_SCAN : Nat := 23
def OPTIONS_LAST_OPTION : Nat := 25

/-! ## `apply_the_setting` -/

def applyFlag (value : Int) (flag : Nat) (s : Settings) : Settings :=
  { s with osScanFlags :=
      if value ≠ 0 then s.osScanFlags ||| .ofNat 32 flag else s.osScanFlags &&& ~~~.ofNat 32 flag }

def tcpScanFlag (scan : List UInt8) : Nat :=
  if scan = text "Connect Scan" then OS_SCAN_OPTION_TCP_CONNECT_SCAN
  else if scan = text "SYN Scan" then OS_SCAN_OPTION_TCP_SYN_SCAN
  else if scan = text "Stealth FIN Scan" then OS_SCAN_OPTION_STEALTH_FIN
  else if scan = text "Stealth XMAS Scan" then OS_SCAN_OPTION_STEALTH_XMAS
  else if scan = text "Stealth NULL Scan" then OS_SCAN_OPTION_STEALTH_NULL
  else OS_SCAN_OPTION_TCP_CONNECT_SCAN

def timingFlag (timing : List UInt8) : Nat :=
  if timing = text "Normal" then OS_SCAN_OPTION_TIMIMG_NORMAL
  else if timing = text "Paranoid" then OS_SCAN_OPTION_TIMIMG_PARANOID
  else if timing = text "Sneaky" then OS_SCAN_OPTION_TIMIMG_SNEAKY
  else if timing = text "Polite" then OS_SCAN_OPTION_TIMIMG_POLITE
  else if timing = text "Aggressive" then OS_SCAN_OPTION_TIMIMG_AGGRESSIVE
  else if timing = text "Insane" then OS_SCAN_OPTION_TIMIMG_INSANE
  else OS_SCAN_OPTION_TIMIMG_NORMAL

def applyChoice (mask flag : Nat) (s : Settings) : Settings :=
  { s with osScanFlags := s.osScanFlags &&& ~~~.ofNat 32 mask ||| .ofNat 32 flag }

def applyTheSetting (s : Settings) (flags : Nat) : Settings :=
  match flags with
  | OPTIONS_DISCOVER_RETRIES =>
    { s with effects := s.effects ++ [.setSettings s.options.discoverRetries flags] }
  | OPTIONS_USE_IP_FOR_LABEL => { s with effects := s.effects ++ [.display] }
  | OPTIONS_OS_SCAN_UDP_SCAN => applyFlag s.options.osScanUdpScan OS_SCAN_OPTION_UDP_SCAN s
  | OPTIONS_OS_SCAN_DONT_PING => applyFlag s.options.osScanDontPing OS_SCAN_OPTION_DONT_PING s
  | OPTIONS_OS_SCAN_TCP_SCAN =>
    applyChoice OS_SCAN_OPTION_SCAN_MASK (tcpScanFlag s.options.osScanTcpScan) s
  | OPTIONS_OS_SCAN_TIMING =>
    applyChoice OS_SCAN_OPTION_TIMIMG_MASK (timingFlag s.options.osScanTiming) s
  | OPTIONS_OS_SCAN_SCAN_SPECIFIED_PORTS =>
    applyFlag s.options.osScanScanSpecifiedPorts OS_SCAN_OPTION_USE_PORT_RANGE s
  | OPTIONS_OS_SCAN_FASTSCAN => applyFlag s.options.osScanFastscan OS_SCAN_OPTION_FASTSCAN s
  | OPTIONS_OS_SCAN_OSSCAN => applyFlag s.options.osScanOsscan OS_SCAN_OPTION_OSSCAN s
  -- These two cases test `options_os_scan_osscan` as well.
  | OPTIONS_OS_SCAN_RPC_SCAN => applyFlag s.options.osScanOsscan OS_SCAN_OPTION_RPC_SCAN s
  | OPTIONS_OS_SCAN_IDENTD_SCAN => applyFlag s.options.osScanOsscan OS_SCAN_OPTION_IDENTD_SCAN s
  | _ => s

def applyAllSettings (s : Settings) : Settings :=
  (List.range OPTIONS_LAST_OPTION).foldl applyTheSetting s

/-! ## The word that results -/

def flagField (value : Int) (flag : Nat) : BitVec 32 × BitVec 32 :=
  (.ofNat 32 flag, if value ≠ 0 then .ofNat 32 flag else 0)

def fields (o : Options) : List (BitVec 32 × BitVec 32) :=
  [flagField o.osScanUdpScan OS_SCAN_OPTION_UDP_SCAN,
   (.ofNat 32 OS_SCAN_OPTION_SCAN_MASK, .ofNat 32 (tcpScanFlag o.osScanTcpScan)),
   flagField o.osScanFastscan OS_SCAN_OPTION_FASTSCAN,
   flagField o.osScanOsscan OS_SCAN_OPTION_OSSCAN,
   flagField o.osScanScanSpecifiedPorts OS_SCAN_OPTION_USE_PORT_RANGE,
   flagField o.osScanDontPing OS_SCAN_OPTION_DONT_PING,
   (.ofNat 32 OS_SCAN_OPTION_TIMIMG_MASK, .ofNat 32 (timingFlag o.osScanTiming)),
   flagField o.osScanOsscan OS_SCAN_OPTION_RPC_SCAN,
   flagField o.osScanOsscan OS_SCAN_OPTION_IDENTD_SCAN]

variable {o : Options} {s : Settings}

theorem applyFlag_eq (value : Int) (flag : Nat) :
    applyFlag value flag s =
      { s with
        osScanFlags :=
          setField s.osScanFlags (flagField value flag).1 (flagField value flag).2 } := by
  unfold applyFlag flagField
  rw [setField_ite]

/-- `apply_all_settings` writes the fields, whatever the word was before. -/
theorem applyAllSettings_eq :
    applyAllSettings s =
      { options := s.options
        osScanFlags := setFields s.osScanFlags (fields s.options)
        effects := s.effects ++
          [.setSettings s.options.discoverRetries OPTIONS_DISCOVER_RETRIES, .display] } := by
  have inOrder : List.range OPTIONS_LAST_OPTION =
      [0, 1, 2, 3, 4, 5, 6, 7, 8, 9, 10, 11, 12, 13, 14, 15, 16, 17, 18, 19, 20, 21, 22, 23,
        24] := by
    decide
  unfold applyAllSettings
  rw [inOrder]
  simp only [List.foldl_cons, List.foldl_nil, applyTheSetting, applyFlag_eq, applyChoice,
    List.append_assoc]
  rfl

theorem tcpScanFlag_mem (scan : List UInt8) : tcpScanFlag scan ∈ scans.map (·.1) := by
  unfold tcpScanFlag
  split_ifs <;> decide

theorem timingFlag_mem (timing : List UInt8) : timingFlag timing ∈ timings.map (·.1) := by
  unfold timingFlag
  split_ifs <;> decide

/-- Every value lies in its mask, -/
theorem fields_inside : ∀ field ∈ fields o, field.2 &&& field.1 = field.2 := by
  have flag (value : Int) (flag : Nat) :
      (flagField value flag).2 &&& (flagField value flag).1 = (flagField value flag).2 := by
    unfold flagField
    split <;> simp
  have scan : ∀ flag ∈ scans.map (·.1),
      BitVec.ofNat 32 flag &&& .ofNat 32 OS_SCAN_OPTION_SCAN_MASK = .ofNat 32 flag := by decide
  have timing : ∀ flag ∈ timings.map (·.1),
      BitVec.ofNat 32 flag &&& .ofNat 32 OS_SCAN_OPTION_TIMIMG_MASK = .ofNat 32 flag := by decide
  simp only [fields, List.forall_mem_cons]
  refine ⟨flag _ _, scan _ (tcpScanFlag_mem _), flag _ _, flag _ _, flag _ _, flag _ _,
    timing _ (timingFlag_mem _), flag _ _, flag _ _, ?_⟩
  intro field member
  cases member

/-- and the masks are disjoint. -/
theorem fields_disjoint : (fields o).Pairwise fun field later => later.1 &&& field.1 = 0 := by
  have masks : ((fields o).map (·.1)).Pairwise fun mask later => later &&& mask = 0 := by
    change List.Pairwise _ [BitVec.ofNat 32 OS_SCAN_OPTION_UDP_SCAN,
      .ofNat 32 OS_SCAN_OPTION_SCAN_MASK, .ofNat 32 OS_SCAN_OPTION_FASTSCAN,
      .ofNat 32 OS_SCAN_OPTION_OSSCAN, .ofNat 32 OS_SCAN_OPTION_USE_PORT_RANGE,
      .ofNat 32 OS_SCAN_OPTION_DONT_PING, .ofNat 32 OS_SCAN_OPTION_TIMIMG_MASK,
      .ofNat 32 OS_SCAN_OPTION_RPC_SCAN, .ofNat 32 OS_SCAN_OPTION_IDENTD_SCAN]
    decide
  exact List.pairwise_map.mp masks

theorem applyAllSettings_field {field : BitVec 32 × BitVec 32} (member : field ∈ fields s.options) :
    (applyAllSettings s).osScanFlags &&& field.1 = field.2 := by
  rw [applyAllSettings_eq]
  exact setFields_and_mask fields_inside fields_disjoint field member

/-- The word has a flag exactly if the option it was made from is set. -/
theorem applyAllSettings_flag {value : Int} {flag : Nat} (word : flag < 2 ^ 32)
    (nonzero : flag ≠ 0) (member : flagField value flag ∈ fields s.options) :
    (applyAllSettings s).osScanFlags.toNat &&& flag ≠ 0 ↔ value ≠ 0 := by
  have field := congrArg BitVec.toNat (applyAllSettings_field member)
  simp only [flagField, BitVec.toNat_and, BitVec.toNat_ofNat, Nat.mod_eq_of_lt word] at field
  rw [field]
  split
  · simp only [BitVec.toNat_ofNat, Nat.mod_eq_of_lt word]
    tauto
  · simp_all

theorem applyAllSettings_scan :
    (applyAllSettings s).osScanFlags.toNat &&& OS_SCAN_OPTION_SCAN_MASK =
      tcpScanFlag s.options.osScanTcpScan := by
  have field := congrArg BitVec.toNat (applyAllSettings_field (s := s)
    (.tail _ (.head _)))
  have word : ∀ flag ∈ scans.map (·.1), flag % 2 ^ 32 = flag := by decide
  have mask : OS_SCAN_OPTION_SCAN_MASK % 2 ^ 32 = OS_SCAN_OPTION_SCAN_MASK := by decide
  simpa only [BitVec.toNat_and, BitVec.toNat_ofNat, word _ (tcpScanFlag_mem _), mask] using field

theorem applyAllSettings_timing :
    (applyAllSettings s).osScanFlags.toNat &&& OS_SCAN_OPTION_TIMIMG_MASK =
      timingFlag s.options.osScanTiming := by
  have field := congrArg BitVec.toNat (applyAllSettings_field (s := s)
    (.tail _ (.tail _ (.tail _ (.tail _ (.tail _ (.tail _ (.head _))))))))
  have word : ∀ flag ∈ timings.map (·.1), flag % 2 ^ 32 = flag := by decide
  have mask : OS_SCAN_OPTION_TIMIMG_MASK % 2 ^ 32 = OS_SCAN_OPTION_TIMIMG_MASK := by decide
  simpa only [BitVec.toNat_and, BitVec.toNat_ofNat, word _ (timingFlag_mem _), mask] using field

/-! ## What the dialog shows -/

/-- The switch of a TCP scan type; what the dialog does not offer is a connect scan. -/
def scanSwitchOf (scan : List UInt8) : List UInt8 :=
  if scan = text "SYN Scan" then text "-sS"
  else if scan = text "Stealth FIN Scan" then text "-sF"
  else if scan = text "Stealth XMAS Scan" then text "-sX"
  else if scan = text "Stealth NULL Scan" then text "-sN"
  else text "-sT"

/-- The names of the timings are those of `nmap`; what the dialog does not offer is normal. -/
def timingNameOf (timing : List UInt8) : List UInt8 :=
  if timing ∈ [text "Paranoid", text "Sneaky", text "Polite", text "Aggressive", text "Insane"]
  then timing
  else text "Normal"

def scanSwitches : List (List UInt8) := scans.flatMap (·.2)

/-- The command for an options word agrees with a dialog.  It is `nmap` with the arguments
    `selected word`, among them one scan type and one timing, and with the ports. -/
structure Agrees (o : Options) (word : Nat) : Prop where
  command : ∀ ip ports, nmapCommand ip word ports = Shell.line (text "nmap")
    ([ip, text "-oX", text "-", text "-n"] ++ selected word ++
      if o.osScanScanSpecifiedPorts ≠ 0 then [text "-p", ports] else [])
  portSwitch : text "-p" ∉ selected word
  rpc : text "-sR" ∈ selected word ↔ o.osScanRpcScan ≠ 0
  identd : text "-I" ∈ selected word ↔ o.osScanIdentdScan ≠ 0
  osscan : text "-O" ∈ selected word ↔ o.osScanOsscan ≠ 0
  udp : text "-sU" ∈ selected word ↔ o.osScanUdpScan ≠ 0
  fastscan : text "-F" ∈ selected word ↔ o.osScanFastscan ≠ 0
  dontPing : text "-P0" ∈ selected word ↔ o.osScanDontPing ≠ 0
  scan : (selected word).filter (· ∈ scanSwitches) = [scanSwitchOf o.osScanTcpScan]
  timing : ∃ before after, selected word =
    before ++ [text "-T", timingNameOf o.osScanTiming] ++ after ∧
      text "-T" ∉ before ∧ text "-T" ∉ after

/-! ## What the word selects -/

variable {options : Nat}

theorem scansSelected_mem {word : List UInt8}
    (member : word ∈ (scans.filter (·.1 == options &&& OS_SCAN_OPTION_SCAN_MASK)).flatMap (·.2)) :
    word ∈ scanSwitches := by
  simp only [List.mem_flatMap, List.mem_filter] at member
  obtain ⟨entry, ⟨inTable, -⟩, inWords⟩ := member
  exact List.mem_flatMap.mpr ⟨entry, inTable, inWords⟩

theorem timingsSelected_mem {word : List UInt8}
    (member : word ∈
      (timings.filter (·.1 == options &&& OS_SCAN_OPTION_TIMIMG_MASK)).flatMap (·.2)) :
    word ∈ timings.flatMap (·.2) := by
  simp only [List.mem_flatMap, List.mem_filter] at member
  obtain ⟨entry, ⟨inTable, -⟩, inWords⟩ := member
  exact List.mem_flatMap.mpr ⟨entry, inTable, inWords⟩

theorem switchesSelected_mem {word : List UInt8}
    (member : word ∈ (switches.filter (options &&& ·.1 != 0)).map (·.2)) :
    word ∈ switches.map (·.2) := by
  simp only [List.mem_map, List.mem_filter] at member ⊢
  obtain ⟨entry, ⟨inTable, -⟩, rfl⟩ := member
  exact ⟨entry, inTable, rfl⟩

/-- A switch is selected exactly if its flag is. -/
theorem switch_mem_selected {flag : Nat} {switch : List UInt8} (entry : (flag, switch) ∈ switches) :
    switch ∈ selected options ↔ options &&& flag ≠ 0 := by
  have apart : ∀ entry ∈ switches,
      entry.2 ∉ scanSwitches ∧ entry.2 ∉ timings.flatMap (·.2) := by decide
  have distinct : ∀ entry ∈ switches, ∀ other ∈ switches, entry.2 = other.2 → entry = other := by
    decide
  obtain ⟨notScan, notTiming⟩ := apart _ entry
  unfold selected
  simp only [List.mem_append, List.mem_map, List.mem_filter, bne_iff_ne]
  constructor
  · intro member
    rcases member with (member | member) | ⟨other, ⟨inTable, set⟩, same⟩
    · cases notScan (scansSelected_mem member)
    · cases notTiming (timingsSelected_mem member)
    · cases distinct _ inTable _ entry same
      exact set
  · intro set
    exact .inr ⟨_, ⟨entry, set⟩, rfl⟩

theorem scansSelected (scan : List UInt8) :
    (scans.filter (·.1 == tcpScanFlag scan)).flatMap (·.2) = [scanSwitchOf scan] := by
  unfold tcpScanFlag scanSwitchOf
  split_ifs with connect syn fin xmas null
  all_goals first | rfl | simp_all [text]

theorem timingsSelected (timing : List UInt8) :
    (timings.filter (·.1 == timingFlag timing)).flatMap (·.2) =
      [text "-T", timingNameOf timing] := by
  unfold timingFlag
  split_ifs with normal paranoid sneaky polite aggressive insane
  iterate 6 subst timing; decide
  simp [timingNameOf, *]
  rfl

/-! ## When they agree -/

theorem applyAllSettings_ports (ports : List UInt8) :
    portArguments (applyAllSettings s).osScanFlags.toNat ports =
      if s.options.osScanScanSpecifiedPorts ≠ 0 then [text "-p", ports] else [] := by
  have flag := @applyAllSettings_flag s s.options.osScanScanSpecifiedPorts
    OS_SCAN_OPTION_USE_PORT_RANGE (by decide) (by decide) (by simp [fields])
  unfold portArguments
  by_cases specified : s.options.osScanScanSpecifiedPorts ≠ 0
  · rw [if_pos specified, if_pos (flag.mpr specified)]
  · rw [if_neg specified, if_neg (mt flag.mp specified)]

theorem portSwitch_not_mem_selected : text "-p" ∉ selected options := by
  have absent : text "-p" ∉ scanSwitches ∧ text "-p" ∉ timings.flatMap (·.2) ∧
      text "-p" ∉ switches.map (·.2) := by decide
  unfold selected
  simp only [List.mem_append, not_or]
  exact ⟨⟨mt scansSelected_mem absent.1, mt timingsSelected_mem absent.2.1⟩,
    mt switchesSelected_mem absent.2.2⟩

/-- The parts of what is selected, by the options they come from. -/
theorem selected_applyAllSettings :
    selected (applyAllSettings s).osScanFlags.toNat =
      [scanSwitchOf s.options.osScanTcpScan] ++
        [text "-T", timingNameOf s.options.osScanTiming] ++
        (switches.filter ((applyAllSettings s).osScanFlags.toNat &&& ·.1 != 0)).map (·.2) := by
  unfold selected
  rw [applyAllSettings_scan, applyAllSettings_timing, scansSelected, timingsSelected]

theorem scanSwitchOf_mem (scan : List UInt8) : scanSwitchOf scan ∈ scanSwitches := by
  unfold scanSwitchOf
  split_ifs <;> decide

theorem timingNameOf_not_mem (timing : List UInt8) : timingNameOf timing ∉ scanSwitches := by
  unfold timingNameOf
  split
  next offered =>
    revert timing
    decide
  next => decide

/-- Everything but the two crossed options agrees. -/
theorem applyAllSettings_agrees_iff :
    Agrees s.options (applyAllSettings s).osScanFlags.toNat ↔
      (s.options.osScanRpcScan ≠ 0 ↔ s.options.osScanOsscan ≠ 0) ∧
        (s.options.osScanIdentdScan ≠ 0 ↔ s.options.osScanOsscan ≠ 0) := by
  -- Each switch stands for one flag, and each flag for the option that it was made from.
  have selects {value : Int} {flag : Nat} {switch : List UInt8} (entry : (flag, switch) ∈ switches)
      (word : flag < 2 ^ 32) (nonzero : flag ≠ 0)
      (member : flagField value flag ∈ fields s.options) :
      switch ∈ selected (applyAllSettings s).osScanFlags.toNat ↔ value ≠ 0 :=
    (switch_mem_selected entry).trans (applyAllSettings_flag word nonzero member)
  have rpc := @selects s.options.osScanOsscan OS_SCAN_OPTION_RPC_SCAN (text "-sR") (by decide)
    (by decide) (by decide) (by simp [fields])
  have identd := @selects s.options.osScanOsscan OS_SCAN_OPTION_IDENTD_SCAN (text "-I")
    (by decide) (by decide) (by decide) (by simp [fields])
  constructor
  · intro agrees
    exact ⟨agrees.rpc.symm.trans rpc, agrees.identd.symm.trans identd⟩
  · rintro ⟨sameRpc, sameIdentd⟩
    have later : ∀ switch ∈ (switches.filter
        ((applyAllSettings s).osScanFlags.toNat &&& ·.1 != 0)).map (·.2),
        switch ∉ scanSwitches ∧ switch ≠ text "-T" := by
      have table : ∀ switch ∈ switches.map (·.2), switch ∉ scanSwitches ∧ switch ≠ text "-T" := by
        decide
      intro switch member
      exact table switch (switchesSelected_mem member)
    constructor
    case command =>
      intro ip ports
      rw [nmapCommand_eq, applyAllSettings_ports]
      rfl
    case portSwitch => exact portSwitch_not_mem_selected
    case rpc => exact rpc.trans sameRpc.symm
    case identd => exact identd.trans sameIdentd.symm
    case osscan =>
      exact @selects _ OS_SCAN_OPTION_OSSCAN _ (by decide) (by decide) (by decide)
        (by simp [fields])
    case udp =>
      exact @selects _ OS_SCAN_OPTION_UDP_SCAN _ (by decide) (by decide) (by decide)
        (by simp [fields])
    case fastscan =>
      exact @selects _ OS_SCAN_OPTION_FASTSCAN _ (by decide) (by decide) (by decide)
        (by simp [fields])
    case dontPing =>
      exact @selects _ OS_SCAN_OPTION_DONT_PING _ (by decide) (by decide) (by decide)
        (by simp [fields])
    case scan =>
      rw [selected_applyAllSettings, List.filter_append, List.filter_append]
      have none : (((switches.filter ((applyAllSettings s).osScanFlags.toNat &&& ·.1 != 0)).map
          (·.2)).filter (· ∈ scanSwitches)) = [] := by
        rw [List.filter_eq_nil_iff]
        intro switch member
        simp [(later switch member).1]
      have dashT : text "-T" ∉ scanSwitches := by decide
      rw [none]
      simp [scanSwitchOf_mem, dashT, timingNameOf_not_mem]
    case timing =>
      refine ⟨_, _, selected_applyAllSettings, ?_, ?_⟩
      · intro member
        have scan := scanSwitchOf_mem s.options.osScanTcpScan
        rw [← List.mem_singleton.mp member] at scan
        revert scan
        decide
      · intro member
        exact (later _ member).2 rfl

/-! ## Sessions of the dialog -/

/-- A change in the dialog sets options, to anything; `apply_settings` also applies some of them
    at once. -/
inductive Change where
  | set (options : Options)
  | apply (flags : Nat)
deriving DecidableEq, Repr

def change (s : Settings) : Change → Settings
  | .set options => { s with options }
  | .apply flags => applyTheSetting s flags

/-- Whatever was changed and applied before, after `apply_all_settings` the command agrees with
    the dialog exactly if the RPC and the identd option are set just when OS detection is. -/
theorem dialog_agrees_iff (s : Settings) (changes : List Change) :
    let shown := changes.foldl change s
    Agrees shown.options (applyAllSettings shown).osScanFlags.toNat ↔
      (shown.options.osScanRpcScan ≠ 0 ↔ shown.options.osScanOsscan ≠ 0) ∧
        (shown.options.osScanIdentdScan ≠ 0 ↔ shown.options.osScanOsscan ≠ 0) :=
  applyAllSettings_agrees_iff

def defaultOptions : Options where
  discoverRetries := 2
  osScanUdpScan := 0
  osScanTcpScan := text "Connect Scan"
  osScanFastscan := 1
  osScanOsscan := 1
  osScanScanSpecifiedPorts := 0
  osScanDontPing := 1
  osScanTiming := text "Normal"
  osScanRpcScan := 1
  osScanIdentdScan := 1

/-- Switching the RPC scan off has no effect as long as the OS is detected. -/
theorem dialog_rpc_crossed :
    let shown := [Change.set { defaultOptions with osScanRpcScan := 0 },
      .apply OPTIONS_OS_SCAN_RPC_SCAN].foldl change ⟨defaultOptions, 0, []⟩
    shown.options.osScanRpcScan = 0 ∧
      text "-sR" ∈ selected (applyAllSettings shown).osScanFlags.toNat ∧
      ¬ Agrees shown.options (applyAllSettings shown).osScanFlags.toNat := by
  have selected : text "-sR" ∈ selected (applyAllSettings
      ([Change.set { defaultOptions with osScanRpcScan := 0 },
        .apply OPTIONS_OS_SCAN_RPC_SCAN].foldl change
          ⟨defaultOptions, 0, []⟩)).osScanFlags.toNat := by
    decide +kernel
  exact ⟨rfl, selected, fun agrees => agrees.rpc.mp selected rfl⟩

end Cheops.OsScan
