import Cheops.Lib.Decimal
import Cheops.Lib.Shell
import Cheops.OsScan.Request

/-! # OS scans: the command line (`agent-nmapxml.c`)

`runNmapScan` hands a command line to `popen`.  Its options come from a fixed set, but the
port string is the client's.  `runNmapScan_safe_iff` says for which requests the shell reads
the line as one call of `nmap` with the arguments that were meant.
-/

namespace Cheops.OsScan

open Cheops.Lib Cheops.Event

/-! ## The options word -/

def OS_SCAN_OPTION_UDP_SCAN : Nat := 1 <<< 0
def OS_SCAN_OPTION_TCP_CONNECT_SCAN : Nat := 1 <<< 1
def OS_SCAN_OPTION_TCP_SYN_SCAN : Nat := 1 <<< 2
def OS_SCAN_OPTION_STEALTH_FIN : Nat := 1 <<< 3
def OS_SCAN_OPTION_STEALTH_XMAS : Nat := 1 <<< 4
def OS_SCAN_OPTION_STEALTH_NULL : Nat := 1 <<< 5
def OS_SCAN_OPTION_SCAN_MASK : Nat :=
  OS_SCAN_OPTION_TCP_CONNECT_SCAN ||| OS_SCAN_OPTION_TCP_SYN_SCAN |||
    OS_SCAN_OPTION_STEALTH_FIN ||| OS_SCAN_OPTION_STEALTH_XMAS ||| OS_SCAN_OPTION_STEALTH_NULL
def OS_SCAN_OPTION_DONT_PING : Nat := 1 <<< 6
def OS_SCAN_OPTION_USE_PORT_RANGE : Nat := 1 <<< 7
def OS_SCAN_OPTION_FASTSCAN : Nat := 1 <<< 8
def OS_SCAN_OPTION_OSSCAN : Nat := 1 <<< 9
def OS_SCAN_OPTION_RPC_SCAN : Nat := 1 <<< 10
def OS_SCAN_OPTION_IDENTD_SCAN : Nat := 1 <<< 11
def OS_SCAN_OPTION_TIMIMG_PARANOID : Nat := 1 <<< 12
def OS_SCAN_OPTION_TIMIMG_SNEAKY : Nat := 1 <<< 13
def OS_SCAN_OPTION_TIMIMG_POLITE : Nat := 1 <<< 14
def OS_SCAN_OPTION_TIMIMG_NORMAL : Nat := 1 <<< 15
def OS_SCAN_OPTION_TIMIMG_AGGRESSIVE : Nat := 1 <<< 16
def OS_SCAN_OPTION_TIMIMG_INSANE : Nat := 1 <<< 17
def OS_SCAN_OPTION_TIMIMG_MASK : Nat :=
  OS_SCAN_OPTION_TIMIMG_PARANOID ||| OS_SCAN_OPTION_TIMIMG_SNEAKY |||
    OS_SCAN_OPTION_TIMIMG_POLITE ||| OS_SCAN_OPTION_TIMIMG_NORMAL |||
    OS_SCAN_OPTION_TIMIMG_AGGRESSIVE ||| OS_SCAN_OPTION_TIMIMG_INSANE

/-! ## `runNmapScan` -/

/-- `sizeof(cmd)`. -/
def sizeofCmd : Nat := 500

/-- The first `switch`. -/
def scanSwitch (options : Nat) : List UInt8 :=
  let scan := options &&& OS_SCAN_OPTION_SCAN_MASK
  if scan = OS_SCAN_OPTION_TCP_CONNECT_SCAN then text " -sT"
  else if scan = OS_SCAN_OPTION_TCP_SYN_SCAN then text " -sS"
  else if scan = OS_SCAN_OPTION_STEALTH_FIN then text " -sF"
  else if scan = OS_SCAN_OPTION_STEALTH_XMAS then text " -sX"
  else if scan = OS_SCAN_OPTION_STEALTH_NULL then text " -sN"
  else []

/-- The second `switch`. -/
def timingSwitch (options : Nat) : List UInt8 :=
  let timing := options &&& OS_SCAN_OPTION_TIMIMG_MASK
  if timing = OS_SCAN_OPTION_TIMIMG_PARANOID then text " -T Paranoid"
  else if timing = OS_SCAN_OPTION_TIMIMG_SNEAKY then text " -T Sneaky"
  else if timing = OS_SCAN_OPTION_TIMIMG_POLITE then text " -T Polite"
  else if timing = OS_SCAN_OPTION_TIMIMG_NORMAL then text " -T Normal"
  else if timing = OS_SCAN_OPTION_TIMIMG_AGGRESSIVE then text " -T Aggressive"
  else if timing = OS_SCAN_OPTION_TIMIMG_INSANE then text " -T Insane"
  else []

/-- `if(options & option) strcat(cmd, switch)`. -/
def optionSwitch (options option : Nat) (switch : List UInt8) : List UInt8 :=
  if options &&& option ≠ 0 then switch else []

/-- What `runNmapScan` puts into `cmd`, without the NUL. -/
def nmapCommand (ip : List UInt8) (options : Nat) (portRange : List UInt8) : List UInt8 :=
  text "nmap " ++ ip ++ text " -oX - -n" ++ scanSwitch options ++ timingSwitch options ++
    optionSwitch options OS_SCAN_OPTION_OSSCAN (text " -O") ++
    optionSwitch options OS_SCAN_OPTION_UDP_SCAN (text " -sU") ++
    optionSwitch options OS_SCAN_OPTION_RPC_SCAN (text " -sR") ++
    optionSwitch options OS_SCAN_OPTION_IDENTD_SCAN (text " -I") ++
    optionSwitch options OS_SCAN_OPTION_FASTSCAN (text " -F") ++
    optionSwitch options OS_SCAN_OPTION_DONT_PING (text " -P0") ++
    optionSwitch options OS_SCAN_OPTION_USE_PORT_RANGE (text " -p " ++ portRange)

/-! ## The arguments that are meant -/

def scans : List (Nat × List (List UInt8)) :=
  [(OS_SCAN_OPTION_TCP_CONNECT_SCAN, [text "-sT"]), (OS_SCAN_OPTION_TCP_SYN_SCAN, [text "-sS"]),
   (OS_SCAN_OPTION_STEALTH_FIN, [text "-sF"]), (OS_SCAN_OPTION_STEALTH_XMAS, [text "-sX"]),
   (OS_SCAN_OPTION_STEALTH_NULL, [text "-sN"])]

def timings : List (Nat × List (List UInt8)) :=
  [(OS_SCAN_OPTION_TIMIMG_PARANOID, [text "-T", text "Paranoid"]),
   (OS_SCAN_OPTION_TIMIMG_SNEAKY, [text "-T", text "Sneaky"]),
   (OS_SCAN_OPTION_TIMIMG_POLITE, [text "-T", text "Polite"]),
   (OS_SCAN_OPTION_TIMIMG_NORMAL, [text "-T", text "Normal"]),
   (OS_SCAN_OPTION_TIMIMG_AGGRESSIVE, [text "-T", text "Aggressive"]),
   (OS_SCAN_OPTION_TIMIMG_INSANE, [text "-T", text "Insane"])]

def switches : List (Nat × List UInt8) :=
  [(OS_SCAN_OPTION_OSSCAN, text "-O"), (OS_SCAN_OPTION_UDP_SCAN, text "-sU"),
   (OS_SCAN_OPTION_RPC_SCAN, text "-sR"), (OS_SCAN_OPTION_IDENTD_SCAN, text "-I"),
   (OS_SCAN_OPTION_FASTSCAN, text "-F"), (OS_SCAN_OPTION_DONT_PING, text "-P0")]

def selected (options : Nat) : List (List UInt8) :=
  (scans.filter (·.1 == options &&& OS_SCAN_OPTION_SCAN_MASK)).flatMap (·.2) ++
    (timings.filter (·.1 == options &&& OS_SCAN_OPTION_TIMIMG_MASK)).flatMap (·.2) ++
    (switches.filter (options &&& ·.1 != 0)).map (·.2)

/-- The arguments of `nmap` but for the ports. -/
def fixedArguments (ip : List UInt8) (options : Nat) : List (List UInt8) :=
  [ip, text "-oX", text "-", text "-n"] ++ selected options

def portArguments (options : Nat) (portRange : List UInt8) : List (List UInt8) :=
  if options &&& OS_SCAN_OPTION_USE_PORT_RANGE ≠ 0 then [text "-p", portRange] else []

/-! ## The line is made of the arguments -/

theorem scanSwitch_eq (options : Nat) :
    scanSwitch options =
      ((scans.filter (·.1 == options &&& OS_SCAN_OPTION_SCAN_MASK)).flatMap (·.2)).flatMap
        (32 :: ·) := by
  simp only [scanSwitch]
  generalize options &&& OS_SCAN_OPTION_SCAN_MASK = scan
  split_ifs with h₁ h₂ h₃ h₄ h₅
  iterate 5 subst scan; decide
  simp [scans, eq_comm (b := scan), h₁, h₂, h₃, h₄, h₅]

theorem timingSwitch_eq (options : Nat) :
    timingSwitch options =
      ((timings.filter (·.1 == options &&& OS_SCAN_OPTION_TIMIMG_MASK)).flatMap (·.2)).flatMap
        (32 :: ·) := by
  simp only [timingSwitch]
  generalize options &&& OS_SCAN_OPTION_TIMIMG_MASK = timing
  split_ifs with h₁ h₂ h₃ h₄ h₅ h₆
  iterate 6 subst timing; decide
  simp [timings, eq_comm (b := timing), h₁, h₂, h₃, h₄, h₅, h₆]

theorem optionSwitches_eq (options : Nat) (table : List (Nat × List UInt8)) :
    ((table.filter (options &&& ·.1 != 0)).map (·.2)).flatMap (32 :: ·) =
      table.flatMap fun x => optionSwitch options x.1 (32 :: x.2) := by
  induction table with
  | nil => rfl
  | cons x table ih =>
    rw [List.flatMap_cons, ← ih, optionSwitch, List.filter_cons]
    by_cases h : options &&& x.1 = 0 <;> simp [h]

/-- `cmd` is the arguments with blanks in between. -/
theorem nmapCommand_eq (ip : List UInt8) (options : Nat) (portRange : List UInt8) :
    nmapCommand ip options portRange =
      Shell.line (text "nmap") (fixedArguments ip options ++ portArguments options portRange) := by
  have hports : optionSwitch options OS_SCAN_OPTION_USE_PORT_RANGE (text " -p " ++ portRange) =
      (portArguments options portRange).flatMap (32 :: ·) := by
    rw [optionSwitch, portArguments]
    split
    · simp [show text " -p " = 32 :: (text "-p" ++ [32]) from rfl]
    · rfl
  rw [nmapCommand, hports, scanSwitch_eq, timingSwitch_eq, Shell.line_append, Shell.line,
    fixedArguments, selected, List.flatMap_append, List.flatMap_append, List.flatMap_append,
    optionSwitches_eq]
  simp only [switches, show text "nmap " = text "nmap" ++ [32] from rfl,
    show text " -oX - -n" = 32 :: text "-oX" ++ 32 :: text "-" ++ 32 :: text "-n" from rfl,
    List.flatMap_cons, List.flatMap_nil, List.append_assoc, List.cons_append, List.nil_append,
    List.append_nil]
  rfl

/-! ## The fixed arguments are harmless -/

theorem decimal_ordinary (n : Nat) : ∀ b ∈ text (toString n), Shell.isOrdinary b = true := by
  have hdigits : ∀ k < 58, 48 ≤ k → Shell.isOrdinary (UInt8.ofNat k) = true := by decide
  intro b hb
  rw [text_decimal] at hb
  obtain ⟨c, hc, rfl⟩ := List.mem_map.mp hb
  have hdigit := Nat.isDigit_of_mem_toDigits (by omega) (by omega) hc
  simp only [Char.isDigit, Bool.and_eq_true, decide_eq_true_eq] at hdigit
  have hlow : 48 ≤ c.toNat := hdigit.1
  have hhigh : c.toNat ≤ 57 := hdigit.2
  exact hdigits _ (by omega) hlow

theorem decimal_byte (b : UInt8) :
    text (toString b.toNat) ≠ [] ∧ (text (toString b.toNat)).length ≤ 3 := by
  have hlt := b.toNat_lt
  rw [text_decimal]
  constructor
  · simp [Nat.toDigits_ne_nil]
  · rw [List.length_map, Nat.length_toDigits_le_iff (by omega) (by omega)]
    omega

theorem ip2str_plain (ip : Nat) : Shell.Plain (ip2str ip) ∧ (ip2str ip).length ≤ 15 := by
  obtain ⟨hne₀, hlen₀⟩ := decimal_byte (UInt8.ofNat ip)
  have hlen₁ := (decimal_byte (UInt8.ofNat (ip / 256))).2
  have hlen₂ := (decimal_byte (UInt8.ofNat (ip / 256 ^ 2))).2
  have hlen₃ := (decimal_byte (UInt8.ofNat (ip / 256 ^ 3))).2
  have hdot : ∀ b ∈ text ".", Shell.isOrdinary b = true := by decide +kernel
  have hdotlen : (text ".").length = 1 := rfl
  rw [ip2str, inetNtoa_eq]
  constructor
  · refine Shell.plain_of_ordinary (fun h => ?_) fun b hb => ?_
    · simp only [List.append_eq_nil_iff] at h
      exact hne₀ h.1.1.1.1.1.1
    simp only [List.mem_append, or_assoc] at hb
    rcases hb with hb | hb | hb | hb | hb | hb | hb
    · exact decimal_ordinary _ b hb
    · exact hdot b hb
    · exact decimal_ordinary _ b hb
    · exact hdot b hb
    · exact decimal_ordinary _ b hb
    · exact hdot b hb
    · exact decimal_ordinary _ b hb
  · simp only [List.length_append, hdotlen]
    omega

theorem fixedArguments_plain {ip : List UInt8} (h : Shell.Plain ip) (options : Nat) :
    ∀ w ∈ text "nmap" :: fixedArguments ip options, Shell.Plain w := by
  have htables : ∀ w ∈ scans.flatMap (·.2) ++ timings.flatMap (·.2) ++ switches.map (·.2),
      Shell.Plain w := by decide
  have hselected : ∀ w ∈ selected options, Shell.Plain w := by
    intro w hw
    refine htables w ?_
    simp only [selected, List.mem_append, List.mem_flatMap, List.mem_map, List.mem_filter] at hw ⊢
    rcases hw with (⟨x, ⟨hx, -⟩, hw⟩ | ⟨x, ⟨hx, -⟩, hw⟩) | ⟨x, ⟨hx, -⟩, hw⟩
    · exact .inl (.inl ⟨x, hx, hw⟩)
    · exact .inl (.inr ⟨x, hx, hw⟩)
    · exact .inr ⟨x, hx, hw⟩
  have hwords : ∀ w ∈ [text "nmap", text "-oX", text "-", text "-n"], Shell.Plain w := by decide
  intro w hw
  simp only [fixedArguments, List.mem_cons, List.mem_append, List.not_mem_nil, or_false] at hw
  rcases hw with rfl | (rfl | rfl | rfl | rfl) | hw
  · exact hwords _ (by simp)
  · exact h
  · exact hwords _ (by simp)
  · exact hwords _ (by simp)
  · exact hwords _ (by simp)
  · exact hselected w hw

theorem length_optionSwitch_le (options option : Nat) (switch : List UInt8) :
    (optionSwitch options option switch).length ≤ switch.length := by
  unfold optionSwitch
  split <;> simp

/-- Without ports the line fits. -/
theorem nmapCommand_fits {ip portRange : List UInt8} {options : Nat} (h : ip.length ≤ 15)
    (hports : options &&& OS_SCAN_OPTION_USE_PORT_RANGE = 0) :
    (nmapCommand ip options portRange).length < sizeofCmd := by
  have hscan : (scanSwitch options).length ≤ 4 := by
    unfold scanSwitch
    dsimp only
    split_ifs <;> decide
  have htiming : (timingSwitch options).length ≤ 14 := by
    unfold timingSwitch
    dsimp only
    split_ifs <;> decide
  have hswitch (option : Nat) (switch : String) (hlen : (text switch).length ≤ 4) :
      (optionSwitch options option (text switch)).length ≤ 4 :=
    Nat.le_trans (length_optionSwitch_le ..) hlen
  have hO := hswitch OS_SCAN_OPTION_OSSCAN " -O" (by decide)
  have hU := hswitch OS_SCAN_OPTION_UDP_SCAN " -sU" (by decide)
  have hR := hswitch OS_SCAN_OPTION_RPC_SCAN " -sR" (by decide)
  have hI := hswitch OS_SCAN_OPTION_IDENTD_SCAN " -I" (by decide)
  have hF := hswitch OS_SCAN_OPTION_FASTSCAN " -F" (by decide)
  have hP := hswitch OS_SCAN_OPTION_DONT_PING " -P0" (by decide)
  have hnmap : (text "nmap ").length = 5 := rfl
  have hfixed : (text " -oX - -n").length = 9 := rfl
  have hp : optionSwitch options OS_SCAN_OPTION_USE_PORT_RANGE (text " -p " ++ portRange) = [] := by
    simp [optionSwitch, hports]
  simp only [nmapCommand, hp, List.length_append, List.length_nil, hnmap, hfixed, sizeofCmd]
  omega

/-! ## Which requests are safe -/

/-- The request for `q` is accepted; its port string is the client's. -/
structure Accepted (e : Mem) (ports : List UInt8) (agent : Nat) (q : OsDetectQueue) : Prop where
  string : IsCString e sizeofOsScanE ports
  queued : handleOsscanRequest e ports agent = some q

/-- The line `runNmapScan` makes for `q` fits into `cmd` with its NUL, and the shell reads it, in
    every environment, as one call of `nmap` with the arguments that are meant. -/
structure SafeCommand (q : OsDetectQueue) : Prop where
  fits : (nmapCommand q.name q.flags q.ports).length < sizeofCmd
  words : ∀ env, Shell.read env (nmapCommand q.name q.flags q.ports) =
    some (text "nmap" :: fixedArguments q.name q.flags ++ portArguments q.flags q.ports)

/-- The ports are one plain word, and together with the fixed arguments, each with a blank or
    the NUL behind it, fit into `cmd`. -/
structure SafePorts (ip : List UInt8) (options : Nat) (ports : List UInt8) : Prop where
  plain : Shell.Plain ports
  fits : ((text "nmap" :: fixedArguments ip options ++ [text "-p", ports]).map
    (·.length + 1)).sum ≤ sizeofCmd

instance (ip : List UInt8) (options : Nat) (ports : List UInt8) :
    Decidable (SafePorts ip options ports) :=
  decidable_of_iff (Shell.Plain ports ∧
      ((text "nmap" :: fixedArguments ip options ++ [text "-p", ports]).map (·.length + 1)).sum
        ≤ sizeofCmd)
    ⟨fun h => ⟨h.1, h.2⟩, fun h => ⟨h.1, h.2⟩⟩

theorem Accepted.entry {e : Mem} {ports : List UInt8} {agent : Nat} {q : OsDetectQueue}
    (h : Accepted e ports agent q) :
    q.name = ip2str (osScanIp e) ∧ q.flags = osScanOptions e ∧ q.ports = ports := by
  have hqueued := h.queued
  unfold handleOsscanRequest enqueueOsscan at hqueued
  split at hqueued
  · cases hqueued
  · rw [← Option.some.inj hqueued]
    exact ⟨rfl, rfl, rfl⟩

/-- The line for an accepted request is safe exactly if it has no ports or safe ports. -/
theorem runNmapScan_safe_iff {e : Mem} {ports : List UInt8} {agent : Nat} {q : OsDetectQueue}
    (accepted : Accepted e ports agent q) :
    SafeCommand q ↔
      osScanOptions e &&& OS_SCAN_OPTION_USE_PORT_RANGE = 0 ∨
        SafePorts (ip2str (osScanIp e)) (osScanOptions e) ports := by
  obtain ⟨hname, hflags, hports⟩ := accepted.entry
  obtain ⟨hip, hiplen⟩ := ip2str_plain (osScanIp e)
  rw [← hname] at hip hiplen ⊢
  rw [← hflags, ← hports]
  have hplain := fixedArguments_plain hip q.flags
  have hnmap : Shell.isCommandName (Shell.unquoted (text "nmap")) = true := by decide
  by_cases huse : q.flags &&& OS_SCAN_OPTION_USE_PORT_RANGE = 0
  · refine iff_of_true ⟨nmapCommand_fits hiplen huse, fun env => ?_⟩ (.inl huse)
    rw [nmapCommand_eq, portArguments, if_neg (not_not.mpr huse), List.append_nil, List.append_nil]
    exact Shell.read_line env hplain hnmap
  · have hline : nmapCommand q.name q.flags q.ports =
        Shell.line (text "nmap") (fixedArguments q.name q.flags ++ [text "-p"]) ++
          32 :: q.ports := by
      rw [nmapCommand_eq, portArguments, if_pos huse]
      simp [Shell.line]
    have hwords : text "nmap" :: fixedArguments q.name q.flags ++ portArguments q.flags q.ports =
        text "nmap" :: (fixedArguments q.name q.flags ++ [text "-p"]) ++ [q.ports] := by
      rw [portArguments, if_pos huse]
      simp
    have hplain' : ∀ w ∈ text "nmap" :: (fixedArguments q.name q.flags ++ [text "-p"]),
        Shell.Plain w := by
      have hp : Shell.Plain (text "-p") := by decide
      intro w hw
      rw [← List.cons_append, List.mem_append, List.mem_singleton] at hw
      exact hw.elim (hplain w) fun h => h ▸ hp
    have hfits : (nmapCommand q.name q.flags q.ports).length < sizeofCmd ↔
        ((text "nmap" :: fixedArguments q.name q.flags ++ [text "-p", q.ports]).map
          (·.length + 1)).sum ≤ sizeofCmd := by
      rw [nmapCommand_eq, portArguments, if_pos huse, List.cons_append, ← Shell.length_line]
      exact Iff.rfl
    have hread : (∀ env, Shell.read env (nmapCommand q.name q.flags q.ports) =
        some (text "nmap" :: fixedArguments q.name q.flags ++ portArguments q.flags q.ports)) ↔
        Shell.Plain q.ports := by
      rw [hline, hwords]
      exact Shell.read_line_iff hplain' hnmap
    constructor
    · exact fun h => .inr ⟨hread.mp h.words, hfits.mp h.fits⟩
    · intro h
      obtain ⟨plain, fits⟩ := h.resolve_left huse
      exact ⟨hfits.mpr fits, hread.mpr plain⟩

def portRequest (ports : List UInt8) : Mem :=
  fun i => ([0, 0, 0, 128, 0, 0, 0, 0, 1, 0, 0, 0, 0, 0, 0, 0] ++ ports)[i]?.getD 0

def portEntry (ports : List UInt8) : OsDetectQueue where
  name := text "0.0.0.0"
  np := [1, 0, 0, 0, 0, 0, 0, 0]
  agent := 1
  flags := OS_SCAN_OPTION_USE_PORT_RANGE
  ports := ports

/-- An ordinary port range. -/
theorem runNmapScan_safe_range : SafeCommand (portEntry (text "1-1024")) := by
  have accepted : Accepted (portRequest (text "1-1024")) (text "1-1024") 1
      (portEntry (text "1-1024")) := ⟨by decide +kernel, by decide +kernel⟩
  exact (runNmapScan_safe_iff accepted).mpr (.inr (by decide +kernel))

/-- A port string that starts another command: the line is not one simple command. -/
theorem runNmapScan_injection :
    Accepted (portRequest (text "1;reboot")) (text "1;reboot") 1 (portEntry (text "1;reboot")) ∧
    (∀ env, Shell.read env (nmapCommand (text "0.0.0.0") OS_SCAN_OPTION_USE_PORT_RANGE
      (text "1;reboot")) = none) ∧
    ¬ SafeCommand (portEntry (text "1;reboot")) := by
  have hscan : Shell.scan .none none (nmapCommand (text "0.0.0.0") OS_SCAN_OPTION_USE_PORT_RANGE
      (text "1;reboot")) = .other := by decide +kernel
  have hread : ∀ env, Shell.read env (nmapCommand (text "0.0.0.0") OS_SCAN_OPTION_USE_PORT_RANGE
      (text "1;reboot")) = none := fun env => by rw [Shell.read, hscan]
  refine ⟨⟨by decide +kernel, by decide +kernel⟩, hread, fun h => ?_⟩
  have hwords := h.words Shell.bareEnv
  rw [portEntry, hread] at hwords
  cases hwords

end Cheops.OsScan
