/-
Purpose: How versioned names, versions and host names are read from text.
Source: internal/domain/{ansname,semver}.go
Trusted boundary: human-reviewed model; of the letters beyond ASCII only those are lowered whose lower case is an
  ASCII letter, since no other letter can stand in a host name
-/
import AgentNameService.Registration.Domain

namespace AgentNameService.Registration

open List Except

/-! ### Text -/

/-- `unicode.IsSpace`. -/
def isSpace (c : Char) : Bool :=
  let n := c.toNat
  (9 ≤ n && n ≤ 13) || n == 0x20 || n == 0x85 || n == 0xA0 || n == 0x1680 || (0x2000 ≤ n && n ≤ 0x200A) ||
    n == 0x2028 || n == 0x2029 || n == 0x202F || n == 0x205F || n == 0x3000

/-- `strings.TrimSpace`. -/
def trimSpace (text : String) : String :=
  String.ofList (((text.toList.dropWhile isSpace).reverse.dropWhile isSpace).reverse)

def lowerChar (c : Char) : Char :=
  if c = '\u212A' then 'k' else if c = '\u0130' then 'i' else c.toLower

/-- `strings.ToLower`. -/
def toLower (text : String) : String := String.ofList (text.toList.map lowerChar)

/-- `strings.TrimSuffix` with a dot. -/
def trimDot (text : String) : String :=
  match text.toList.reverse with
  | '.' :: rest => String.ofList rest.reverse
  | _ => text

/-! ### Versions -/

/-- A numeral without leading zeros. -/
def isNumeral : List Char → Bool
  | [] => false
  | ['0'] => true
  | c :: rest => c.isDigit && c != '0' && rest.all Char.isDigit

def natOfDigits (digits : List Char) : Nat := digits.foldl (fun n c => 10 * n + (c.toNat - '0'.toNat)) 0

/-- `strconv.Atoi` of a numeral, whose error is ignored: a number out of range is read as the greatest one. -/
def atoi (digits : List Char) : Nat := min (natOfDigits digits) (2 ^ 63 - 1)

def parseSemVer (text : String) : Except Error SimplifiedSemVer :=
  match text.toList.splitOn '.' with
  | [major, minor, patch] =>
    if isNumeral major && isNumeral minor && isNumeral patch then .ok ⟨atoi major, atoi minor, atoi patch⟩
    else .error (.validation "MALFORMED_SEMVER" ("version must match pattern MAJOR.MINOR.PATCH: " ++ quoted text))
  | _ => .error (.validation "MALFORMED_SEMVER" ("version must match pattern MAJOR.MINOR.PATCH: " ++ quoted text))

/-! ### Hosts -/

def maxHostnameLength : Nat := 253

def maxLabelLength : Nat := 63

def isAlphanumeric (c : Char) : Bool := c.isAlpha || c.isDigit

/-- `labelPattern`: letters, digits and hyphens, with no hyphen at either end. -/
def isLabel (label : List Char) : Bool :=
  label.length ≤ maxLabelLength && label.all (fun c => isAlphanumeric c || c == '-') &&
    label.head?.any isAlphanumeric && label.getLast?.any isAlphanumeric

/-- A part of a dotted quad. -/
def isOctet (part : List Char) : Bool := isNumeral part && natOfDigits part ≤ 255

/-- `net.ParseIP(host) != nil`, for an address of four numbers. -/
def isIPv4 (host : String) : Bool :=
  let parts := host.toList.splitOn '.'
  parts.length = 4 && parts.all isOctet

/-- The check of one label. -/
def validateLabel (label : List Char) : Except Error Unit := do
  require ((String.ofList label).utf8ByteSize ≤ maxLabelLength) (.validation "AGENT_HOST_LABEL_TOO_LONG"
    s!"label {quoted (String.ofList label)} exceeds {maxLabelLength} characters")
  require (isLabel label = true) (.validation "INVALID_AGENT_HOST"
    s!"label {quoted (String.ofList label)} is not a valid DNS label (RFC 1123)")

def validateAgentHost (host : String) : Except Error Unit := do
  require (host ≠ "") (.validation "INVALID_AGENT_HOST" "agent host cannot be empty")
  require (host.utf8ByteSize ≤ maxHostnameLength) (.validation "AGENT_HOST_TOO_LONG"
    s!"agent host exceeds {maxHostnameLength} characters: {host.utf8ByteSize}")
  require (isIPv4 host = false) (.validation "INVALID_AGENT_HOST"
    ("agent host must be a DNS hostname, not an IP address: " ++ quoted host))
  require (2 ≤ (host.toList.splitOn '.').length) (.validation "INVALID_AGENT_HOST"
    ("agent host must have at least two labels (e.g., example.com): " ++ quoted host))
  (host.toList.splitOn '.').forM validateLabel

/-! ### Names -/

def newAnsName (version : SimplifiedSemVer) (agentHost : String) : Except Error AnsName := do
  let host := toLower (trimSpace agentHost)
  validateAgentHost host
  return ⟨version, host⟩

/-- What stands before and after a dot, counted from zero. -/
def splitAtDot : Nat → List Char → Option (List Char × List Char)
  | _, [] => none
  | dots, c :: rest =>
    if c = '.' then
      match dots with
      | 0 => some ([], rest)
      | dots + 1 => (splitAtDot dots rest).map fun parts => (c :: parts.1, parts.2)
    else (splitAtDot dots rest).map fun parts => (c :: parts.1, parts.2)

/-- The part after the protocol and the letter of the version: the third dot ends the version. -/
def parseVersionedHost (text : String) (remainder : List Char) : Except Error AnsName :=
  match splitAtDot 2 remainder with
  | none | some (_, []) => .error (.validation "MALFORMED_ANS_NAME"
      ("ANS name must have format ans://v\x7bM.N.P\x7d.\x7bhost\x7d: " ++ quoted text))
  | some (version, host) =>
    match parseSemVer (String.ofList version) with
    | .error e => .error (.validation "INVALID_ANS_VERSION"
        ("invalid version in ANS name " ++ quoted text ++ ": " ++ e.message))
    | .ok version => newAnsName version (String.ofList host)

def parseAnsName (raw : String) : Except Error AnsName :=
  let text := trimSpace raw
  match text.toList with
  | 'a' :: 'n' :: 's' :: ':' :: '/' :: '/' :: 'v' :: remainder => parseVersionedHost text remainder
  | 'a' :: 'n' :: 's' :: ':' :: '/' :: '/' :: _ => .error (.validation "INVALID_ANS_VERSION"
      ("ANS name version segment must start with 'v': " ++ quoted text))
  | _ => .error (.validation "INVALID_ANS_PROTOCOL"
      ("ANS name must start with \"ans://\": " ++ quoted text))

example : parseAnsName " ans://v1.2.0.MyAgent.example.com" = .ok ⟨⟨1, 2, 0⟩, "myagent.example.com"⟩ := by decide

/-! ### Characters of a name -/

theorem mem_trimSpace {c : Char} {text : String} (h : c ∈ text.toList) (hspace : isSpace c = false) :
    c ∈ (trimSpace text).toList := by
  have hdrop {cs : List Char} (hc : c ∈ cs) : c ∈ cs.dropWhile isSpace := by
    induction cs with
    | nil => cases hc
    | cons d rest ih =>
      rw [dropWhile_cons]
      split
      · rcases mem_cons.mp hc with rfl | hmem
        · simp_all
        · exact ih hmem
      · exact hc
  rw [trimSpace, String.toList_ofList, mem_reverse]
  exact hdrop (mem_reverse.mpr (hdrop h))

/-- A character that does not separate is in one of the pieces. -/
theorem exists_mem_splitOn {c sep : Char} {cs : List Char} (h : c ∈ cs) (hsep : c ≠ sep) :
    ∃ piece ∈ cs.splitOn sep, c ∈ piece := by
  have hpieces {pieces : List (List Char)} (hc : c ∈ [sep].intercalate pieces) : ∃ piece ∈ pieces, c ∈ piece := by
    induction pieces with
    | nil => cases hc
    | cons piece rest ih =>
      cases rest with
      | nil => simpa [intercalate] using hc
      | cons next rest =>
        have hsplit : c ∈ piece ∨ c ∈ [sep].intercalate (next :: rest) := by
          simpa [intercalate, hsep] using hc
        rcases hsplit with hhead | htail
        · exact ⟨piece, mem_cons_self, hhead⟩
        · obtain ⟨p, hp, hmem⟩ := ih htail
          exact ⟨p, mem_cons_of_mem _ hp, hmem⟩
  apply hpieces
  rwa [intercalate_splitOn]

theorem splitAtDot_append {dots : Nat} {cs front back : List Char} (h : splitAtDot dots cs = some (front, back)) :
    cs = front ++ '.' :: back := by
  induction cs generalizing dots front with
  | nil => cases h
  | cons c rest ih =>
    unfold splitAtDot at h
    have hkeeps {n : Nat} (h : (splitAtDot n rest).map (fun parts => (c :: parts.1, parts.2)) = some (front, back)) :
        c :: rest = front ++ '.' :: back := by
      obtain ⟨⟨front', back'⟩, hparts, hsame⟩ := Option.map_eq_some_iff.mp h
      cases hsame
      rw [ih hparts, cons_append]
    split at h
    · cases dots with
      | zero =>
        obtain rfl : c = '.' := ‹_›
        cases h
        rfl
      | succ dots => exact hkeeps h
    · exact hkeeps h

theorem isDigit_of_isNumeral {digits : List Char} (h : isNumeral digits = true) {c : Char} (hc : c ∈ digits) :
    c.isDigit = true := by
  unfold isNumeral at h
  split at h
  · cases h
  · rw [mem_singleton.mp hc]
    decide
  · rename_i first rest _
    simp only [Bool.and_eq_true, all_eq_true] at h
    rcases mem_cons.mp hc with rfl | hmem
    · exact h.1.1
    · exact h.2 c hmem

/-- The null character is in no version and in no host. -/
theorem null_not_mem_of_parseSemVer {text : String} {version : SimplifiedSemVer} (h : parseSemVer text = .ok version) :
    '\x00' ∉ text.toList := by
  intro hmem
  obtain ⟨piece, hpiece, hc⟩ := exists_mem_splitOn hmem (by decide : '\x00' ≠ '.')
  unfold parseSemVer at h
  split at h
  · rename_i major minor patch hsplit
    split at h
    · rename_i hnumerals
      simp only [Bool.and_eq_true] at hnumerals
      rw [hsplit] at hpiece
      have hnumeral : isNumeral piece = true := by
        simp only [mem_cons, not_mem_nil, or_false] at hpiece
        rcases hpiece with rfl | rfl | rfl
        · exact hnumerals.1.1
        · exact hnumerals.1.2
        · exact hnumerals.2
      exact absurd (isDigit_of_isNumeral hnumeral hc) (by decide)
    · cases h
  · cases h

theorem null_not_mem_of_newAnsName {version : SimplifiedSemVer} {host : String} {name : AnsName}
    (h : newAnsName version host = .ok name) : '\x00' ∉ host.toList := by
  intro hmem
  simp only [newAnsName, validateAgentHost, bind_eq_ok_iff] at h
  obtain ⟨_, ⟨_, _, _, _, _, _, _, _, hlabels⟩, _⟩ := h
  have hlower : '\x00' ∈ (toLower (trimSpace host)).toList := by
    rw [toLower, String.toList_ofList]
    exact mem_map.mpr ⟨_, mem_trimSpace hmem (by decide), by decide⟩
  obtain ⟨label, hlabel, hc⟩ := exists_mem_splitOn hlower (by decide : '\x00' ≠ '.')
  have hvalid := forM_eq_ok_iff.mp hlabels label hlabel
  simp only [validateLabel, bind_eq_ok_iff, require_eq_ok_iff] at hvalid
  obtain ⟨_, _, hislabel⟩ := hvalid
  simp only [isLabel, Bool.and_eq_true, all_eq_true] at hislabel
  exact absurd (hislabel.1.1.2 _ hc) (by decide)

theorem null_not_mem_of_parseAnsName {raw : String} {name : AnsName} (h : parseAnsName raw = .ok name) :
    '\x00' ∉ raw.toList := by
  intro hmem
  have htrimmed := mem_trimSpace hmem (by decide)
  simp only [parseAnsName] at h
  split at h
  · rename_i remainder hremainder
    rw [hremainder] at htrimmed
    have hrest : '\x00' ∈ remainder := by simpa using htrimmed
    unfold parseVersionedHost at h
    split at h
    · cases h
    · cases h
    · rename_i version host _ hsplit
      rw [splitAtDot_append hsplit] at hrest
      split at h
      · cases h
      · rename_i parsed hversion
        have hnotVersion := null_not_mem_of_parseSemVer hversion
        have hnotHost := null_not_mem_of_newAnsName h
        rw [String.toList_ofList] at hnotVersion hnotHost
        have hdot : '\x00' ≠ '.' := by decide
        simp [hnotVersion, hnotHost, hdot] at hrest
  · cases h
  · cases h

end AgentNameService.Registration
