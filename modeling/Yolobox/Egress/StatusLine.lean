/-
# The egress line of `yo status`

`yolobox_cli/status.py`: what `systemctl show` says of the unit and, of a unit that is
loaded, what `nft list table` says of the table.  nft prints a table rule by rule, each
on a line of its own: the elements of a set in an order of its own, the counters with what
they have counted.
-/
import Yolobox.Egress.Tiers
import Yolobox.Lines

open Transition

namespace Egress

/-! ## The report -/

/-- `part in text` -/
abbrev isPartOf (part text : PyStr) : Bool := decide (part <:+: text)

structure StatusLine where
  text : PyStr
  warning : Bool
  deriving DecidableEq, Repr

/-- A command that was run on the box. -/
structure Completed where
  returncode : ℤ
  stdout : PyStr
  stderr : PyStr
  deriving DecidableEq, Repr

/-- `line.split("=", 1)` of a line with a `=`. -/
def splitField (line : PyStr) : Option (PyStr × PyStr) :=
  if 61 ∈ line then some (line.takeWhile (· ≠ 61), (line.dropWhile (· ≠ 61)).drop 1) else none

/-- The last line of a key counts. -/
def guestField (text key : PyStr) : PyStr :=
  (((splitlines text).filterMap splitField).reverse.lookup key).getD []

def EGRESS_TABLE : PyStr := lit "inet yolobox-egress"
def EGRESS_UNIT : PyStr := lit "yolobox-egress"
def NFT_MISSING_TABLE : PyStr := lit "No such file or directory"
def EGRESS_PRIVATE_V4 : PyStr := lit "10.0.0.0/8"
def EGRESS_PRIVATE_V6 : PyStr := lit "fc00::/7"

def egressTableHolds (listing : PyStr) : Bool :=
  let lines := (splitlines listing).map strip
  let hasOutputHook := lines.any (startswith · (lit "type filter hook output")) &&
    lines.any (startswith · (lit "chain output"))
  let hasLocalAccept := lines.any fun line =>
    startswith line (lit "oifname \x7b") && (lit "\x7d accept").isSuffixOf line &&
      isPartOf (lit "\"lo\"") line && isPartOf (lit "\"tailscale0\"") line
  let rejectsV4 := lines.any fun line =>
    isPartOf (lit "ip daddr") line && isPartOf EGRESS_PRIVATE_V4 line && isPartOf (lit "reject") line
  let rejectsV6 := lines.any fun line =>
    isPartOf (lit "ip6 daddr") line && isPartOf EGRESS_PRIVATE_V6 line && isPartOf (lit "reject") line
  hasOutputHook && hasLocalAccept && rejectsV4 && rejectsV6

/-- Which fallback table a box whose unit is not active is running on. -/
inductive EgressTier
  | recovery
  | lastResort
  | none
  | unreadable
  | unknown
  deriving DecidableEq, Repr

def EGRESS_TIER_CHAINS : List (PyStr × EgressTier) :=
  [(lit "chain output_lastresort \x7b", .lastResort), (lit "chain output_recovery \x7b", .recovery),
    (lit "chain output \x7b", .recovery)]

def egressTier (table : Completed) : EgressTier :=
  if table.returncode ≠ 0 then
    if isPartOf NFT_MISSING_TABLE table.stderr then .none else .unreadable
  else
    let chains := ((splitlines table.stdout).map strip).filterMap fun line => EGRESS_TIER_CHAINS.lookup line
    (([.lastResort, .recovery] : List EgressTier).find? (· ∈ chains)).getD .unknown

/-- `%d` -/
def intText (n : ℤ) : PyStr := if n < 0 then 45 :: dec n.natAbs else dec n.toNat

section

variable (yoCmd : List PyStr → PyStr) (repr : PyStr → PyStr)

def egressActiveLine (table : Completed) : StatusLine :=
  let blocked : StatusLine := ⟨lit "egress: host and LAN blocked", false⟩
  let wrong : StatusLine :=
    ⟨lit "egress: WARNING unit active but table looks wrong — the box may reach the host; restart it with: " ++
      yoCmd [lit "ssh", lit "sudo", lit "systemctl", lit "restart", EGRESS_UNIT] ++ lit ", or run " ++
      yoCmd [lit "bootstrap"], true⟩
  if table.returncode ≠ 0 then
    if !isPartOf NFT_MISSING_TABLE table.stderr then blocked else wrong
  else if egressTableHolds table.stdout then blocked
  else wrong

/-- What the fallback line says of the tier. -/
def tierText (unit : PyStr) (table : Completed) : EgressTier → PyStr
  | .recovery => lit "recovery table — the egress rules failed to load (" ++ unit ++ lit "), the box has no network"
  | .lastResort =>
    lit "last-resort table — neither the egress rules nor the recovery rules loaded (" ++ unit ++
      lit "), the box has loopback, established and related flows and DHCP only"
  | .none =>
    lit "no table (fail-open) — no egress rules are loaded (" ++ unit ++
      lit "), the box may reach the host and the LAN"
  | .unreadable =>
    lit "the egress rules failed to load (" ++ unit ++ lit ") and the live table could not be read: " ++
      (if strip table.stderr = [] then lit "no message" else strip table.stderr)
  | .unknown =>
    lit "the egress rules failed to load (" ++ unit ++ lit ") and the live table is none of the three tiers"

def egressFallbackLine (activeState : PyStr) (table : Completed) : StatusLine :=
  let unit := EGRESS_UNIT ++ [32] ++ activeState
  if table.returncode = 0 ∧ egressTableHolds table.stdout = true then
    ⟨lit "egress: WARNING full rules loaded, unit " ++ unit ++
      lit " — the host and LAN are blocked, but the unit that loads the rules is not active; restart it with: " ++
      yoCmd [lit "ssh", lit "sudo", lit "systemctl", lit "restart", EGRESS_UNIT] ++ lit "; logs: " ++
      yoCmd [lit "ssh", lit "journalctl", lit "-u", EGRESS_UNIT], true⟩
  else
    ⟨lit "egress: WARNING " ++ tierText unit table (egressTier table) ++ lit "; roll back with: " ++
      yoCmd [lit "ssh", lit "sudo", lit "nixos-rebuild", lit "switch", lit "--rollback"] ++ lit "; logs: " ++
      yoCmd [lit "ssh", lit "journalctl", lit "-u", EGRESS_UNIT] ++ lit "; table: " ++
      yoCmd [lit "ssh", lit "sudo", lit "nft", lit "list", lit "table", EGRESS_TABLE], true⟩

/-- The table is read only of a unit that is loaded. -/
def egressStatusLine (probe table : Completed) : StatusLine :=
  let loadState := guestField probe.stdout (lit "LoadState")
  let activeState := guestField probe.stdout (lit "ActiveState")
  if loadState = lit "not-found" then
    ⟨lit "egress: box predates the egress table; run " ++ yoCmd [lit "bootstrap"], true⟩
  else if loadState = lit "masked" then
    ⟨lit "egress: WARNING the egress table is masked — the box may reach the host; unmask with: " ++
      yoCmd [lit "ssh", lit "sudo", lit "systemctl", lit "unmask", EGRESS_UNIT], true⟩
  else if loadState ≠ lit "loaded" ∨ activeState = [] then
    ⟨lit "egress: not checked — the probe answered " ++ repr (strip probe.stdout) ++ lit " (exit " ++
      intText probe.returncode ++ lit ")" ++
      (if strip probe.stderr = [] then [] else lit ": " ++ strip probe.stderr), false⟩
  else if activeState = lit "active" then egressActiveLine yoCmd table
  else egressFallbackLine yoCmd activeState table

end

/-! ## What the box answers -/

/-- systemd's word for where the unit is. -/
def Phase.activeState : Phase → PyStr
  | .inactive => lit "inactive"
  | .recovery _ | .lastResort _ | .rules _ => lit "activating"
  | .active _ => lit "active"
  | .failed => lit "failed"

/-- `systemctl show -p LoadState -p ActiveState yolobox-egress` -/
def Service.shown (s : Service) : PyStr :=
  lit "LoadState=loaded\nActiveState=" ++ s.phase.activeState ++ [10]

def quoted (name : PyStr) : PyStr := [34] ++ name ++ [34]

/-- nft's word for an ICMPv6 type that the table names. -/
def icmpv6Word : ℕ → PyStr
  | 131 => lit "mld-listener-report"
  | 133 => lit "nd-router-solicit"
  | 135 => lit "nd-neighbor-solicit"
  | 136 => lit "nd-neighbor-advert"
  | 143 => lit "mld2-listener-report"
  | type => dec type

/-- The elements of a set as they are listed: alone, or in braces and in any order. -/
def IsSet (listed : List PyStr) (text : PyStr) : Prop :=
  listed = [text] ∨ text = lit "\x7b " ++ (lit ", ").intercalate listed ++ lit " \x7d"

/-- Ranges in a listing: those that the table blocks as they are spelled, any other one in
nft's spelling. -/
def IsRanges (elements : List PyStr) (text : PyStr) : Prop :=
  ∃ listed, IsSet listed text ∧ ∀ e ∈ elements, e ∈ blocked → e ∈ listed

def Match.IsPrinted : Match → PyStr → Prop
  | .oifname names, text => ∃ listed set, listed.Perm (names.map quoted) ∧ IsSet listed set ∧
      text = lit "oifname " ++ set
  | .ctDirectionReply, text => text = lit "ct direction reply"
  | .ctStatusDnat, text => text = lit "ct status dnat"
  | .ipDaddr elements, text => ∃ set, IsRanges elements set ∧ text = lit "ip daddr " ++ set
  | .ip6Daddr elements, text => ∃ set, IsRanges elements set ∧ text = lit "ip6 daddr " ++ set
  | .udpSport port, text => text = lit "udp sport " ++ dec port
  | .udpDport port, text => text = lit "udp dport " ++ dec port
  | .tcpDport port, text => text = lit "tcp dport " ++ dec port
  | .icmpv6Type types, text => ∃ listed set, listed.Perm (types.map icmpv6Word) ∧ IsSet listed set ∧
      text = lit "icmpv6 type " ++ set

/-- A counter with what it has counted, then the statement. -/
def isCounted (statement text : PyStr) : Prop :=
  ∃ counted after, text = lit "counter" ++ counted ++ lit " " ++ statement ++ after

def Statement.IsPrinted : Statement → PyStr → Prop
  | .accept, text => text = lit "accept"
  | .log, text => ∃ rest, text = lit "limit rate " ++ rest
  | .reject, text => isCounted (lit "reject") text
  | .drop, text => isCounted (lit "drop") text

/-- The matches in order, then the statement. -/
def Rule.IsPrinted (rule : Rule) (line : PyStr) : Prop :=
  ∃ texts statement, List.Forall₂ Match.IsPrinted rule.criteria texts ∧
    rule.statement.IsPrinted statement ∧ line = texts.flatMap (· ++ [32]) ++ statement

/-- A chain, line by line: its name, its hook and its rules. -/
def chainLines (name hook : PyStr) (rules : List (PyStr → Prop)) : List (PyStr → Prop) :=
  (fun line => line = lit "chain " ++ name ++ lit " \x7b") ::
    (fun line => startswith line (lit "type filter hook " ++ hook ++ [32]) = true) ::
    rules ++ [fun line => line = lit "\x7d"]

/-- The chains of a table, line by line. -/
def Table.lines : Table → List (PyStr → Prop)
  | .full net =>
    chainLines (lit "output") (lit "output") (net.outputRules.map Rule.IsPrinted) ++
      (if net.hasTunnels then
        chainLines (lit "postrouting") (lit "postrouting") (net.postroutingRules.map Rule.IsPrinted)
      else [])
  | .recovery => chainLines (lit "output_recovery") (lit "output") (recoveryFile.rules.map Rule.IsPrinted)
  | .lastResort =>
    chainLines (lit "output_lastresort") (lit "output")
      [Rule.IsPrinted ⟨[.oifname [lit "lo"]], .accept⟩,
       fun line => line = lit "ct state established,related accept",
       Rule.IsPrinted ⟨[.udpSport 68, .udpDport 67], .accept⟩]

/-- `nft list table inet yolobox-egress`, whatever its indentation and its blank lines. -/
def Table.Lists (table : Table) (listing : PyStr) : Prop :=
  List.Forall₂ (fun prints line => prints line)
    ((fun line => line = lit "table inet yolobox-egress \x7b") :: table.lines ++ [fun line => line = lit "\x7d"])
    (((splitlines listing).map strip).filter (· ≠ []))

/-- What nft answers of the table that is loaded, or of none. -/
def Answers : Option Table → Completed → Prop
  | some table, completed => completed.returncode = 0 ∧ table.Lists completed.stdout
  | none, completed => completed.returncode ≠ 0 ∧ isPartOf NFT_MISSING_TABLE completed.stderr = true

/-- What the line says of a unit and its table, first of all. -/
def Service.said (s : Service) : PyStr :=
  match s.phase, s.table with
  | .active _, _ => lit "egress: host and LAN blocked"
  | _, some (.full _) => lit "egress: WARNING full rules loaded"
  | _, some .recovery => lit "egress: WARNING recovery table"
  | _, some .lastResort => lit "egress: WARNING last-resort table"
  | _, none => lit "egress: WARNING no table (fail-open)"

/-! ## Printed lines -/

variable {text line listing : PyStr} {rule : Rule} {table : Table}

theorem infix_intercalate {x sep : PyStr} {xs : List PyStr} (h : x ∈ xs) : x <:+: sep.intercalate xs := by
  induction xs with
  | nil => cases h
  | cons y ys ih =>
    cases ys with
    | nil => rw [List.mem_singleton.mp h, List.intercalate_singleton]
    | cons z zs =>
      rw [List.intercalate_cons_cons]
      rcases List.mem_cons.mp h with rfl | h
      · exact ((List.prefix_append x sep).trans (List.prefix_append _ _)).isInfix
      · exact (ih h).trans (List.suffix_append _ _).isInfix

/-- An element of a set is part of its text. -/
theorem infix_of_isSet {listed : List PyStr} {x : PyStr} (h : IsSet listed text) (hx : x ∈ listed) :
    x <:+: text := by
  rcases h with rfl | rfl
  · rw [List.mem_singleton.mp hx]
  · exact (infix_intercalate hx).trans (List.infix_append _ _ _)

/-- The first two characters of a printed match. -/
def Match.start : Match → PyStr
  | .oifname _ => lit "oi"
  | .ctDirectionReply | .ctStatusDnat => lit "ct"
  | .ipDaddr _ | .ip6Daddr _ => lit "ip"
  | .udpSport _ | .udpDport _ => lit "ud"
  | .tcpDport _ => lit "tc"
  | .icmpv6Type _ => lit "ic"

def Statement.start : Statement → PyStr
  | .accept => lit "ac"
  | .log => lit "li"
  | .reject | .drop => lit "co"

def Rule.start (rule : Rule) : PyStr := (rule.criteria.head?.map Match.start).getD rule.statement.start

theorem take_of_isPrinted (h : rule.IsPrinted line) : line.take 2 = rule.start := by
  obtain ⟨criteria, statement⟩ := rule
  obtain ⟨texts, text, htexts, hstatement, rfl⟩ := h
  cases htexts with
  | nil =>
    cases statement
    case accept => rw [show text = _ from hstatement]; rfl
    case log => obtain ⟨rest, rfl⟩ := hstatement; rfl
    case reject => obtain ⟨counted, after, rfl⟩ := hstatement; rfl
    case drop => obtain ⟨counted, after, rfl⟩ := hstatement; rfl
  | @cons criterion first _ _ hfirst =>
    cases criterion
    case oifname => obtain ⟨listed, set, -, -, rfl⟩ := hfirst; rfl
    case ctDirectionReply => rw [show first = _ from hfirst]; rfl
    case ctStatusDnat => rw [show first = _ from hfirst]; rfl
    case ipDaddr => obtain ⟨set, -, rfl⟩ := hfirst; rfl
    case ip6Daddr => obtain ⟨set, -, rfl⟩ := hfirst; rfl
    case udpSport => rw [show first = _ from hfirst]; rfl
    case udpDport => rw [show first = _ from hfirst]; rfl
    case tcpDport => rw [show first = _ from hfirst]; rfl
    case icmpv6Type => obtain ⟨listed, set, -, -, rfl⟩ := hfirst; rfl

theorem start_ne_chain (rule : Rule) : rule.start ≠ lit "ch" := by
  obtain ⟨criteria, statement⟩ := rule
  cases criteria with
  | nil => cases statement <;> decide
  | cons criterion _ => cases criterion <;> simp only [Rule.start, List.head?_cons, Option.map_some,
      Option.getD_some, Match.start] <;> decide

/-- A line of a rule is no line of a chain. -/
theorem chain_ne_of_isPrinted (h : rule.IsPrinted line) (name : PyStr) : line ≠ lit "chain " ++ name := by
  rintro rfl
  exact start_ne_chain rule (take_of_isPrinted h).symm

/-- A line that accepts by interface is of a rule that does. -/
theorem start_of_startswith (h : rule.IsPrinted line) (hline : startswith line (lit "oifname \x7b") = true) :
    rule.start = lit "oi" := by
  obtain ⟨rest, rfl⟩ := startswith_iff.mp hline
  exact (take_of_isPrinted h).symm

/-! ## Tables -/

theorem exists_of_forall₂ {α β : Type} {r : α → β → Prop} {xs : List α} {ys : List β}
    (h : List.Forall₂ r xs ys) : (∀ x ∈ xs, ∃ y ∈ ys, r x y) ∧ ∀ y ∈ ys, ∃ x ∈ xs, r x y := by
  induction h with
  | nil => exact ⟨List.forall_mem_nil _, List.forall_mem_nil _⟩
  | @cons x y xs ys hxy _ ih =>
    refine ⟨List.forall_mem_cons.mpr ⟨⟨y, List.mem_cons_self, hxy⟩, fun x' hx' => ?_⟩,
      List.forall_mem_cons.mpr ⟨⟨x, List.mem_cons_self, hxy⟩, fun y' hy' => ?_⟩⟩
    · obtain ⟨y', hy', hr⟩ := ih.1 x' hx'
      exact ⟨y', List.mem_cons_of_mem y hy', hr⟩
    · obtain ⟨x', hx', hr⟩ := ih.2 y' hy'
      exact ⟨x', List.mem_cons_of_mem x hx', hr⟩

/-- Every line of a table is listed. -/
theorem exists_line (h : table.Lists listing) {prints : PyStr → Prop} (hprints : prints ∈ table.lines) :
    ∃ line ∈ (splitlines listing).map strip, prints line := by
  obtain ⟨line, hline, hline'⟩ := (exists_of_forall₂ h).1 prints
    (List.mem_cons_of_mem _ (List.mem_append_left _ hprints))
  exact ⟨line, List.mem_of_mem_filter hline, hline'⟩

/-- What is listed is a line of the table, its frame, or blank. -/
theorem line_cases (h : table.Lists listing) (hline : line ∈ (splitlines listing).map strip) :
    line = [] ∨ line = lit "table inet yolobox-egress \x7b" ∨ line = lit "\x7d" ∨
      ∃ prints ∈ table.lines, prints line := by
  by_cases hnil : line = []
  · exact .inl hnil
  obtain ⟨prints, hprints, hline'⟩ := (exists_of_forall₂ h).2 line
    (List.mem_filter.mpr ⟨hline, by simpa using hnil⟩)
  rw [List.cons_append, List.mem_cons, List.mem_append, List.mem_singleton] at hprints
  rcases hprints with rfl | hprints | rfl
  · exact .inr (.inl hline')
  · exact .inr (.inr (.inr ⟨prints, hprints, hline'⟩))
  · exact .inr (.inr (.inl hline'))

/-- The lines of a chain: its name, its hook, its end and its rules. -/
theorem mem_chainLines {name hook : PyStr} {rules : List (PyStr → Prop)} {prints : PyStr → Prop} :
    prints ∈ chainLines name hook rules ↔ (prints = fun line => line = lit "chain " ++ name ++ lit " \x7b") ∨
      (prints = fun line => startswith line (lit "type filter hook " ++ hook ++ [32]) = true) ∨
      prints ∈ rules ∨ prints = fun line => line = lit "\x7d" := by
  rw [chainLines, List.cons_append, List.cons_append, List.mem_cons, List.mem_cons, List.mem_append,
    List.mem_singleton]

/-- The accept by interface as it is printed, of two interfaces or more. -/
theorem isPrinted_oifname {names : List PyStr} (hnames : 1 < names.length)
    (h : Rule.IsPrinted ⟨[.oifname names], .accept⟩ line) : startswith line (lit "oifname \x7b") = true ∧
      (lit "\x7d accept").isSuffixOf line = true ∧ ∀ name ∈ names, quoted name <:+: line := by
  obtain ⟨texts, statement, htexts, hstatement, rfl⟩ := h
  obtain ⟨first, rest, ⟨listed, set, hperm, hset, rfl⟩, hrest, rfl⟩ := List.forall₂_cons_left_iff.mp htexts
  rw [List.forall₂_nil_left_iff] at hrest
  rw [show statement = lit "accept" from hstatement, hrest, List.flatMap_singleton]
  have hpart {name : PyStr} (hname : name ∈ names) : quoted name <:+: set :=
    infix_of_isSet hset (hperm.mem_iff.mpr (List.mem_map_of_mem hname))
  have hbraces : set = lit "\x7b " ++ (lit ", ").intercalate listed ++ lit " \x7d" := by
    refine hset.resolve_left fun hsingle => ?_
    have hlength := hperm.length_eq
    rw [hsingle, List.length_singleton, List.length_map] at hlength
    omega
  refine ⟨?_, ?_, fun name hname => ?_⟩
  · rw [hbraces]
    exact startswith_iff.mpr ⟨[32] ++ ((lit ", ").intercalate listed ++ lit " \x7d" ++ [32] ++ lit "accept"), by
      simp [lit, List.append_assoc]⟩
  · rw [hbraces, List.isSuffixOf_iff_suffix]
    exact ⟨lit "oifname " ++ (lit "\x7b " ++ (lit ", ").intercalate listed) ++ [32], by simp [lit]⟩
  · exact (hpart hname).trans ⟨lit "oifname ", [32] ++ lit "accept", by simp⟩

/-- A reject of ranges as it is printed. -/
theorem isPrinted_reject (criterion : Match) (word element : PyStr) {elements : List PyStr}
    (hcriterion : ∀ text, criterion.IsPrinted text → ∃ set, IsRanges elements set ∧ text = word ++ [32] ++ set)
    (helement : element ∈ elements) (hblocked : element ∈ blocked)
    (h : Rule.IsPrinted ⟨[criterion], .reject⟩ line) :
    word <:+: line ∧ element <:+: line ∧ lit "reject" <:+: line := by
  obtain ⟨texts, statement, htexts, ⟨counted, after, rfl⟩, rfl⟩ := h
  obtain ⟨first, rest, hfirst, hrest, rfl⟩ := List.forall₂_cons_left_iff.mp htexts
  obtain ⟨set, ⟨listed, hset, hlisted⟩, rfl⟩ := hcriterion first hfirst
  rw [List.forall₂_nil_left_iff] at hrest
  rw [hrest, List.flatMap_singleton]
  refine ⟨⟨[], [32] ++ set ++ [32] ++ (lit "counter" ++ counted ++ lit " " ++ lit "reject" ++ after), by simp⟩,
    (infix_of_isSet hset (hlisted element helement hblocked)).trans
      ⟨word ++ [32], [32] ++ (lit "counter" ++ counted ++ lit " " ++ lit "reject" ++ after), by simp⟩,
    ⟨word ++ [32] ++ set ++ [32] ++ lit "counter" ++ counted ++ lit " ", after, by simp⟩⟩

theorem holds_full (net : Network) (h : (Table.full net).Lists listing) : egressTableHolds listing = true := by
  have hmem {prints : PyStr → Prop}
      (hprints : prints ∈ chainLines (lit "output") (lit "output") (net.outputRules.map Rule.IsPrinted)) :
      ∃ line ∈ (splitlines listing).map strip, prints line :=
    exists_line h (List.mem_append_left _ hprints)
  have hrule (rule : Rule) (hrule : rule ∈ net.outputRules) :
      ∃ line ∈ (splitlines listing).map strip, rule.IsPrinted line :=
    hmem (mem_chainLines.mpr (.inr (.inr (.inl (List.mem_map_of_mem hrule)))))
  obtain ⟨chain, hchain, hchainLine⟩ := hmem (mem_chainLines.mpr (.inl rfl))
  obtain ⟨hook, hhook, hhookLine⟩ := hmem (mem_chainLines.mpr (.inr (.inl rfl)))
  obtain ⟨accept, haccept, hacceptLine⟩ :=
    hrule ⟨[.oifname net.ifaceSet], .accept⟩ (by simp [Network.outputRules])
  obtain ⟨v4, hv4, hv4Line⟩ := hrule ⟨[.ipDaddr blockedV4], .reject⟩ (by simp [Network.outputRules])
  obtain ⟨v6, hv6, hv6Line⟩ := hrule ⟨[.ip6Daddr blockedV6], .reject⟩ (by simp [Network.outputRules])
  have hoifname := isPrinted_oifname (by simp [Network.ifaceSet, acceptedIfaces]) hacceptLine
  have hrejectV4 := isPrinted_reject (.ipDaddr blockedV4) (lit "ip daddr") EGRESS_PRIVATE_V4
    (fun text ⟨set, hset, htext⟩ => ⟨set, hset, htext⟩) (by decide) (by decide) hv4Line
  have hrejectV6 := isPrinted_reject (.ip6Daddr blockedV6) (lit "ip6 daddr") EGRESS_PRIVATE_V6
    (fun text ⟨set, hset, htext⟩ => ⟨set, hset, htext⟩) (by decide) (by decide) hv6Line
  have hlo := hoifname.2.2 (lit "lo") (by simp [Network.ifaceSet, acceptedIfaces])
  have htailnet := hoifname.2.2 tailnetIface (by simp [Network.ifaceSet, acceptedIfaces])
  unfold egressTableHolds
  simp only [Bool.and_eq_true, List.any_eq_true, decide_eq_true_eq]
  refine ⟨⟨⟨⟨⟨hook, hhook, ?_⟩, chain, hchain, ?_⟩, accept, haccept, ⟨⟨hoifname.1, hoifname.2.1⟩, hlo⟩, htailnet⟩,
    v4, hv4, ⟨hrejectV4.1, hrejectV4.2.1⟩, hrejectV4.2.2⟩, v6, hv6, ⟨hrejectV6.1, hrejectV6.2.1⟩, hrejectV6.2.2⟩
  · obtain ⟨rest, rfl⟩ := startswith_iff.mp hhookLine
    exact startswith_iff.mpr ⟨32 :: rest, by simp [lit]⟩
  · rw [hchainLine]
    rfl

/-! ## The fallback tables are told apart -/

/-- No line of a table that is no rule's accepts by interface. -/
theorem not_localAccept {prints : PyStr → Prop} {name hook : PyStr} {rules : List (PyStr → Prop)}
    (hprints : prints ∈ chainLines name hook rules) (hline : prints line)
    (haccept : startswith line (lit "oifname \x7b") = true) : prints ∈ rules := by
  obtain ⟨rest, rfl⟩ := startswith_iff.mp haccept
  rcases mem_chainLines.mp hprints with rfl | rfl | hrule | rfl
  · cases hline
  · obtain ⟨rest', h⟩ := startswith_iff.mp hline
    cases h
  · exact hrule
  · cases hline

/-- `oifname "lo"` as it is printed. -/
theorem isPrinted_lo {line : PyStr} (h : Rule.IsPrinted ⟨[.oifname [lit "lo"]], .accept⟩ line) :
    line = lit "oifname \"lo\" accept" ∨ line = lit "oifname \x7b \"lo\" \x7d accept" := by
  obtain ⟨texts, statement, htexts, hstatement, rfl⟩ := h
  obtain ⟨first, rest, ⟨listed, set, hperm, hset, rfl⟩, hrest, rfl⟩ := List.forall₂_cons_left_iff.mp htexts
  rw [List.forall₂_nil_left_iff] at hrest
  rw [show statement = lit "accept" from hstatement, hrest, List.flatMap_singleton]
  rw [List.map_singleton, List.perm_singleton] at hperm
  rcases hset with hset | hset
  · left
    rw [← List.singleton_inj.mp (hperm.symm.trans hset)]
    rfl
  · right
    rw [hset, hperm]
    rfl

/-- What keeps a table from being taken for the full one, and its chain for another's. -/
structure Apart (prints : PyStr → Prop) : Prop where
  chain : ∀ line, prints line → ∀ name, line ≠ lit "chain " ++ name
  accept : ∀ line, prints line → startswith line (lit "oifname \x7b") = true →
    isPartOf (lit "\"tailscale0\"") line = false

theorem apart_of_start (hstart : rule.start ≠ lit "oi") : Apart rule.IsPrinted :=
  ⟨fun _ h => chain_ne_of_isPrinted h, fun _ h haccept => absurd (start_of_startswith h haccept) hstart⟩

theorem apart_lo : Apart (Rule.IsPrinted ⟨[.oifname [lit "lo"]], .accept⟩) := by
  refine ⟨fun _ h => chain_ne_of_isPrinted h, fun line h _ => ?_⟩
  rcases isPrinted_lo h with rfl | rfl <;> decide

theorem apart_ctState : Apart fun line => line = lit "ct state established,related accept" := by
  refine ⟨?_, ?_⟩
  · rintro line rfl name h
    cases h
  · rintro line rfl h
    cases h

/-- A table of one chain whose rules are all apart. -/
def IsFallback (table : Table) (name : PyStr) : Prop :=
  ∃ rules, table.lines = chainLines name (lit "output") rules ∧ ∀ prints ∈ rules, Apart prints

theorem isFallback_recovery : IsFallback .recovery (lit "output_recovery") := by
  refine ⟨_, rfl, ?_⟩
  simp only [recoveryFile, List.map_cons, List.map_nil, List.forall_mem_cons]
  exact ⟨apart_lo, apart_of_start (by decide), apart_of_start (by decide), apart_of_start (by decide),
    apart_of_start (by decide), apart_of_start (by decide), List.forall_mem_nil _⟩

theorem isFallback_lastResort : IsFallback .lastResort (lit "output_lastresort") := by
  refine ⟨_, rfl, ?_⟩
  simp only [List.forall_mem_cons]
  exact ⟨apart_lo, apart_ctState, apart_of_start (by decide), List.forall_mem_nil _⟩

variable {name : PyStr}

theorem not_holds_of_isFallback (hfallback : IsFallback table name) (h : table.Lists listing) :
    egressTableHolds listing = false := by
  obtain ⟨rules, hlines, hrules⟩ := hfallback
  rw [Bool.eq_false_iff]
  intro hholds
  unfold egressTableHolds at hholds
  simp only [Bool.and_eq_true, List.any_eq_true, decide_eq_true_eq] at hholds
  obtain ⟨line, hline, ⟨⟨haccept, -⟩, -⟩, htailnet⟩ := hholds.1.1.2
  rcases line_cases h hline with rfl | rfl | rfl | ⟨prints, hprints, hprinted⟩
  · cases haccept
  · cases haccept
  · cases haccept
  · rw [hlines] at hprints
    have hpart := (hrules prints (not_localAccept hprints hprinted haccept)).accept line hprinted haccept
    exact of_decide_eq_false hpart htailnet

theorem mem_of_lookup {tier : EgressTier} (h : EGRESS_TIER_CHAINS.lookup line = some tier) :
    (line, tier) ∈ EGRESS_TIER_CHAINS := by
  obtain ⟨before, after, hsplit, -⟩ := List.lookup_eq_some_iff.mp h
  rw [hsplit]
  exact List.mem_append_right _ List.mem_cons_self

/-- A line that names a tier is the line of the table's chain. -/
theorem tier_of_line (hfallback : IsFallback table name) (h : table.Lists listing)
    (hline : line ∈ (splitlines listing).map strip) {tier : EgressTier}
    (htier : EGRESS_TIER_CHAINS.lookup line = some tier) : line = lit "chain " ++ name ++ lit " \x7b" := by
  obtain ⟨rules, hlines, hrules⟩ := hfallback
  have hchain : ∃ rest, line = lit "chain " ++ rest := by
    have hmem := mem_of_lookup htier
    simp only [EGRESS_TIER_CHAINS, List.mem_cons, Prod.mk.injEq, List.not_mem_nil, or_false] at hmem
    rcases hmem with ⟨rfl, -⟩ | ⟨rfl, -⟩ | ⟨rfl, -⟩
    · exact ⟨lit "output_lastresort \x7b", rfl⟩
    · exact ⟨lit "output_recovery \x7b", rfl⟩
    · exact ⟨lit "output \x7b", rfl⟩
  obtain ⟨rest, rfl⟩ := hchain
  rcases line_cases h hline with hnil | hheader | hend | ⟨prints, hprints, hprinted⟩
  · cases hnil
  · cases hheader
  · cases hend
  · rw [hlines] at hprints
    rcases mem_chainLines.mp hprints with rfl | rfl | hrule | rfl
    · exact hprinted
    · obtain ⟨rest', h⟩ := startswith_iff.mp hprinted
      cases h
    · exact absurd rfl ((hrules prints hrule).chain _ hprinted rest)
    · cases hprinted

theorem egressTier_of_isFallback (hfallback : IsFallback table name) {answer : Completed}
    (hcode : answer.returncode = 0) (h : table.Lists answer.stdout) {tier : EgressTier}
    (hname : EGRESS_TIER_CHAINS.lookup (lit "chain " ++ name ++ lit " \x7b") = some tier) :
    egressTier answer = tier := by
  set chains := ((splitlines answer.stdout).map strip).filterMap fun line => EGRESS_TIER_CHAINS.lookup line
    with hchains
  have hmem (tier' : EgressTier) : tier' ∈ chains ↔ tier' = tier := by
    rw [hchains, List.mem_filterMap]
    constructor
    · rintro ⟨line, hline, hlookup⟩
      rw [tier_of_line hfallback h hline hlookup, hname] at hlookup
      exact (Option.some.inj hlookup).symm
    · rintro rfl
      obtain ⟨rules, hlines, -⟩ := hfallback
      obtain ⟨line, hline, hprinted⟩ := exists_line h (hlines ▸ mem_chainLines.mpr (.inl rfl))
      exact ⟨line, hline, hprinted ▸ hname⟩
  have htier : tier = .lastResort ∨ tier = .recovery := by
    have hmem := mem_of_lookup hname
    simp only [EGRESS_TIER_CHAINS, List.mem_cons, Prod.mk.injEq, List.not_mem_nil, or_false] at hmem
    rcases hmem with ⟨-, rfl⟩ | ⟨-, rfl⟩ | ⟨-, rfl⟩
    · exact .inl rfl
    · exact .inr rfl
    · exact .inr rfl
  rw [egressTier, if_neg (by simp [hcode]), ← hchains]
  simp only [hmem]
  rcases htier with rfl | rfl <;> rfl

/-! ## The line -/

variable {as : List Action} {s : Service} {yoCmd : List PyStr → PyStr} {repr : PyStr → PyStr}
  {probe answer : Completed}

theorem guestField_shown (s : Service) : guestField s.shown (lit "LoadState") = lit "loaded" ∧
    guestField s.shown (lit "ActiveState") = s.phase.activeState := by
  unfold Service.shown
  cases s.phase <;> exact ⟨rfl, rfl⟩

/-- A unit that is shown is judged by its table. -/
theorem egressStatusLine_shown (hprobe : probe.stdout = s.shown) :
    egressStatusLine yoCmd repr probe answer =
      if s.phase.isActive then egressActiveLine yoCmd answer
      else egressFallbackLine yoCmd s.phase.activeState answer := by
  unfold egressStatusLine
  rw [hprobe, (guestField_shown s).1, (guestField_shown s).2]
  cases s.phase <;> rfl

theorem startswith_trans {text start first : PyStr} (h : startswith text start = true)
    (hstart : startswith start first = true) : startswith text first = true :=
  List.isPrefixOf_iff_prefix.mpr
    ((List.isPrefixOf_iff_prefix.mp hstart).trans (List.isPrefixOf_iff_prefix.mp h))

theorem fallbackLine_full {net : Network} (h : Answers (some (.full net)) answer) (activeState : PyStr) :
    startswith (egressFallbackLine yoCmd activeState answer).text (lit "egress: WARNING full rules loaded") = true := by
  rw [egressFallbackLine, if_pos ⟨h.1, holds_full net h.2⟩]
  rfl

theorem fallbackLine_tier {name : PyStr} {table : Table} (hfallback : IsFallback table name)
    (h : Answers (some table) answer) {tier : EgressTier}
    (hname : EGRESS_TIER_CHAINS.lookup (lit "chain " ++ name ++ lit " \x7b") = some tier) (activeState : PyStr) :
    startswith (egressFallbackLine yoCmd activeState answer).text
      (lit "egress: WARNING " ++ tierText (EGRESS_UNIT ++ [32] ++ activeState) answer tier) = true := by
  rw [egressFallbackLine, if_neg (by simp [not_holds_of_isFallback hfallback h.2]),
    egressTier_of_isFallback hfallback h.1 h.2 hname]
  rw [startswith_iff]
  simp only [List.append_assoc]
  exact ⟨_, rfl⟩

theorem warning_fallbackLine (activeState : PyStr) :
    (egressFallbackLine yoCmd activeState answer).warning = true := by
  unfold egressFallbackLine
  dsimp only
  split_ifs <;> rfl

theorem fallbackLine_none (h : Answers none answer) (activeState : PyStr) :
    startswith (egressFallbackLine yoCmd activeState answer).text (lit "egress: WARNING no table (fail-open)") = true := by
  have htier : egressTier answer = .none := by rw [egressTier, if_pos h.1, if_pos h.2]
  rw [egressFallbackLine, if_neg (fun hfull => h.1 hfull.1), htier]
  rfl

/-- A unit that is not active is said to be so, with the table that is in force. -/
theorem fallbackLine_said (hphase : s.phase.isActive = false) (h : Answers s.table answer) (activeState : PyStr) :
    startswith (egressFallbackLine yoCmd activeState answer).text s.said = true := by
  obtain ⟨table, phase⟩ := s
  have hsaid : Service.said ⟨table, phase⟩ = Service.said ⟨table, .failed⟩ := by
    cases phase <;> first | (rcases table with _ | net | _ | _ <;> rfl) | cases hphase
  rw [hsaid]
  cases table with
  | none => exact fallbackLine_none h activeState
  | some table =>
    cases table with
    | full net => exact fallbackLine_full h activeState
    | recovery =>
      have htier : EGRESS_TIER_CHAINS.lookup (lit "chain " ++ lit "output_recovery" ++ lit " \x7b") =
        some .recovery := by decide
      exact startswith_trans (fallbackLine_tier isFallback_recovery h htier activeState) rfl
    | lastResort =>
      have htier : EGRESS_TIER_CHAINS.lookup (lit "chain " ++ lit "output_lastresort" ++ lit " \x7b") =
        some .lastResort := by decide
      exact startswith_trans (fallbackLine_tier isFallback_lastResort h htier activeState) rfl

/-- **The egress line** of a box in whatever state its unit has reached, however nft lists the
table: there is no warning exactly where the unit is active, which is where the box sends what
its configuration allows and nothing else; otherwise the line starts with the table that is in
force, the full one, a fallback, or none. -/
theorem egressStatusLine_tells (h : run step boot as = some s) (hprobe : probe.stdout = s.shown)
    (hanswer : Answers s.table answer) :
    ((egressStatusLine yoCmd repr probe answer).warning = false ↔ ∃ net, s.phase = .active net) ∧
      ((egressStatusLine yoCmd repr probe answer).warning = false →
        ∃ net, s.phase = .active net ∧ ∀ p, s.letOut p = true ↔ net.Allowed p.toPacket) ∧
      startswith (egressStatusLine yoCmd repr probe answer).text s.said = true := by
  have hactive : s.phase.isActive = true ↔ ∃ net, s.phase = .active net := by
    cases s.phase <;> simp [Phase.isActive]
  rw [egressStatusLine_shown hprobe, ← hactive]
  split_ifs with hphase
  · obtain ⟨net, hnet⟩ := hactive.mp hphase
    have htable : s.table = some (.full net) :=
      (inv_run (inv_boot : Inv (fun _ => True) boot) (fun _ _ => trivial) h).active net hnet
    rw [htable] at hanswer
    have hline : egressActiveLine yoCmd answer = ⟨lit "egress: host and LAN blocked", false⟩ := by
      rw [egressActiveLine, if_neg (by simp [hanswer.1]), if_pos (holds_full net hanswer.2)]
    have hsaid : s.said = lit "egress: host and LAN blocked" := by
      rw [Service.said, hnet]
    rw [hline, hsaid]
    exact ⟨iff_of_true rfl hphase, fun _ => ⟨net, hnet, (closed_of_run h).2.2.1 net hnet⟩, by decide⟩
  · rw [warning_fallbackLine]
    exact ⟨iff_of_false Bool.noConfusion hphase, fun habsurd => Bool.noConfusion habsurd,
      fallbackLine_said (by simpa using hphase) hanswer _⟩

def lastResortListing : PyStr :=
  lit "table inet yolobox-egress \x7b\n\tchain output_lastresort \x7b\n" ++
    lit "\t\ttype filter hook output priority filter - 20; policy drop;\n\t\toifname \"lo\" accept\n" ++
    lit "\t\tct state established,related accept\n\t\tudp sport 68 udp dport 67 accept\n\t\x7d\n\x7d\n"

theorem lists_lastResortListing : Table.lastResort.Lists lastResortListing := by
  have hlines : ((splitlines lastResortListing).map strip).filter (· ≠ []) =
      [lit "table inet yolobox-egress \x7b", lit "chain output_lastresort \x7b",
        lit "type filter hook output priority filter - 20; policy drop;", lit "oifname \"lo\" accept",
        lit "ct state established,related accept", lit "udp sport 68 udp dport 67 accept", lit "\x7d", lit "\x7d"] := by
    decide
  unfold Table.Lists
  rw [hlines]
  refine .cons rfl (.cons rfl (.cons (by decide) (.cons ?_ (.cons rfl (.cons ?_ (.cons rfl (.cons rfl .nil)))))))
  · exact ⟨[lit "oifname \"lo\""], lit "accept",
      .cons ⟨[quoted (lit "lo")], quoted (lit "lo"), List.Perm.refl _, .inl rfl, rfl⟩ .nil, rfl, rfl⟩
  · exact ⟨[lit "udp sport 68", lit "udp dport 67"], lit "accept", .cons rfl (.cons rfl .nil), rfl, rfl⟩

def lastResortLine : StatusLine :=
  egressStatusLine ([32].intercalate ·) id ⟨0, (Service.mk (some .lastResort) .failed).shown, []⟩
    ⟨0, lastResortListing, []⟩

/-- A box that runs on the last-resort table. -/
theorem egressStatusLine_tells_lastResort : lastResortLine.warning ≠ false ∧
    startswith lastResortLine.text (lit "egress: WARNING last-resort table") = true := by
  have htells := @egressStatusLine_tells [.start plainNetwork, .ends false, .ends true, .ends false]
    ⟨some .lastResort, .failed⟩ ([32].intercalate ·) id _ _ rfl
    (show (Completed.mk 0 (Service.mk (some .lastResort) .failed).shown []).stdout = _ from rfl)
    (show Answers (some .lastResort) ⟨0, lastResortListing, []⟩ from ⟨rfl, lists_lastResortListing⟩)
  refine ⟨fun hwarning => ?_, htells.2.2⟩
  obtain ⟨net, hnet⟩ := htells.1.mp hwarning
  cases hnet

end Egress
