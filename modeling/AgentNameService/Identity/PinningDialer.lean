/-
Purpose: The dialer of the did:web resolver.  A pin is read and written in separate critical sections around a lookup, and
  whoever answers the lookup may change their mind: the connections for a host still go to one public address.
Source: internal/adapter/didresolver/web.go (pinningDialer, isPublicUnicast)
Trusted boundary: human-reviewed model; net.SplitHostPort and net.IP.String are parameters; a dial is the attempt alone
-/
import AgentNameService.Foundation.Interleaving
import AgentNameService.Foundation.Outcome
import AgentNameService.Foundation.Sha256

namespace AgentNameService.Identity.PinningDialer

open Interleaving List Prog Except

/-! ### Addresses -/

/-- `net.IP.To4`. -/
def to4 (ip : Bytes) : Bytes :=
  if ip.length = 16 ∧ ip.take 12 = replicate 10 0 ++ [0xff, 0xff] then ip.drop 12 else ip

def isLoopback (ip : Bytes) : Bool :=
  match to4 ip with
  | [a, _, _, _] => a = 127
  | ip => ip = replicate 15 0 ++ [1]

def isPrivate (ip : Bytes) : Bool :=
  match to4 ip with
  | [a, b, _, _] => a = 10 ∨ (a = 172 ∧ b &&& 0xf0 = 16) ∨ (a = 192 ∧ b = 168)
  | ip => ip.length = 16 ∧ ip.head?.any (· &&& 0xfe = 0xfc)

def isLinkLocalUnicast (ip : Bytes) : Bool :=
  match to4 ip with
  | [a, b, _, _] => a = 169 ∧ b = 254
  | a :: b :: rest => rest.length = 14 ∧ a = 0xfe ∧ b &&& 0xc0 = 0x80
  | _ => false

def isLinkLocalMulticast (ip : Bytes) : Bool :=
  match to4 ip with
  | [a, b, c, _] => a = 224 ∧ b = 0 ∧ c = 0
  | a :: b :: rest => rest.length = 14 ∧ a = 0xff ∧ b &&& 0x0f = 0x02
  | _ => false

def isMulticast (ip : Bytes) : Bool :=
  match to4 ip with
  | [a, _, _, _] => a &&& 0xf0 = 0xe0
  | ip => ip.length = 16 ∧ ip.head? = some 0xff

def isUnspecified (ip : Bytes) : Bool := to4 ip = replicate 4 0 ∨ ip = replicate 16 0

def isPublicUnicast (ip : Bytes) : Bool :=
  !(isLoopback ip || isPrivate ip || isLinkLocalUnicast ip || isLinkLocalMulticast ip || isMulticast ip || isUnspecified ip)

/-! ### Dials -/

/-- What is used of the library. -/
structure Net where
  splitHostPort : String → Option (String × String)
  ipString : Bytes → String

/-- A connection that was attempted for a host. -/
structure Attempt where
  host : String
  ip : String
  port : String
deriving DecidableEq

/-- The pins, under their lock, and the connections attempted so far. -/
structure State where
  pin : String → Option String
  attempts : List Attempt

inductive Call
  | pinned (host : String)
  | pinFirst (host chosen : String)
  | dial (attempt : Attempt)

abbrev Call.Reply : Call → Type
  | .pinned _ => Option String
  | .pinFirst .. => String
  | .dial _ => Unit

/-- The critical sections; the first writer of a pin wins. -/
def Call.exec : (c : Call) → Unit → State → Except String (c.Reply × State)
  | .pinned host, _, s => .ok (s.pin host, s)
  | .pinFirst host chosen, _, s =>
    match s.pin host with
    | some existing => .ok (existing, s)
    | none => .ok (chosen, { s with pin := fun h => if h = host then some chosen else s.pin h })
  | .dial attempt, _, s => .ok ((), { s with attempts := s.attempts ++ [attempt] })

/-- A question is a host to look up; the answer is an error or addresses. -/
abbrev interface : Interface where
  State := State
  Err := String
  Input := Unit
  Call := Call
  Reply := Call.Reply
  exec := Call.exec
  Query := String
  Answer := fun _ => Option (List Bytes)

variable (N : Net) (allowPrivate : Bool)

def resolveAndPin (host : String) : Prog interface String := do
  let ips : Option (List Bytes) ← query host
  let ips := ips.getD []
  lift (require (ips ≠ []) "didresolver: host did not resolve")
  let chosen := ((ips.find? fun ip => allowPrivate || isPublicUnicast ip).map N.ipString).getD ""
  lift (require (chosen ≠ "") "didresolver: host resolves only to disallowed addresses")
  perform (M := interface) (.pinFirst host chosen)

def dialContext (addr : String) : Prog interface Unit := do
  let (host, port) ← lift ((N.splitHostPort addr).elim (.error "didresolver: malformed dial address") .ok)
  lift (require (port = "443") "didresolver: refusing non-443 connection")
  let pinned : Option String ← perform (M := interface) (.pinned host)
  let pinnedIP ← pinned.elim (resolveAndPin N allowPrivate host) pure
  perform (M := interface) (.dial ⟨host, pinnedIP, port⟩)

def dialer : Service interface where
  Op := String
  Out := Unit
  body := dialContext N allowPrivate
  init := ⟨fun _ => none, []⟩

/-! ### Pins -/

/-- The text of an address that may be dialed. -/
def Public (ip : String) : Prop := ∃ address, isPublicUnicast address = true ∧ N.ipString address = ip

/-- A connection to the pin of its host. -/
def Pinned (s : State) (a : Attempt) : Prop := a.port = "443" ∧ s.pin a.host = some a.ip

/-- A pin is public and stays, and connections go to pins. -/
def pinning : Discipline interface where
  Inv s := (∀ host ip, s.pin host = some ip → Public N ip) ∧ ∀ a ∈ s.attempts, Pinned s a
  Rely s t := ∀ host ip, s.pin host = some ip → t.pin host = some ip
  Grows s t := ∀ host ip, s.pin host = some ip → t.pin host = some ip
  Pre c s := match c with
    | .pinned _ => True
    | .pinFirst _ chosen => Public N chosen
    | .dial a => Pinned s a
  refl _ _ _ := id
  trans _ _ _ hst htu host ip hpin := htu host ip (hst host ip hpin)
  grows _ _ := id
  grows_trans _ _ _ hst htu host ip hpin := htu host ip (hst host ip hpin)
  keeps := by
    rintro (host | ⟨host, chosen⟩ | a) _ s r t hinv hpre hexec
    · cases hexec
      exact ⟨hinv, fun _ _ => id⟩
    · simp only [Call.exec] at hexec
      split at hexec
      · cases hexec
        exact ⟨hinv, fun _ _ => id⟩
      · rename_i hnone
        cases hexec
        have hgrows (h ip : String) (hpin : s.pin h = some ip) :
            (if h = host then some chosen else s.pin h) = some ip := by
          rw [if_neg, hpin]
          rintro rfl
          rw [hnone] at hpin
          cases hpin
        refine ⟨⟨?_, fun a ha => ⟨(hinv.2 a ha).1, hgrows _ _ (hinv.2 a ha).2⟩⟩, hgrows⟩
        intro h ip hpin
        simp only at hpin
        split at hpin
        · cases hpin
          exact hpre
        · exact hinv.1 h ip hpin
    · cases hexec
      refine ⟨⟨hinv.1, ?_⟩, fun _ _ => id⟩
      intro a' ha'
      rcases mem_append.mp ha' with hold | hnew
      · exact hinv.2 a' hold
      · rw [mem_singleton.mp hnew]
        exact hpre

theorem resolveAndPin_safe (host : String) (s : State) :
    (resolveAndPin N false host).Safe (pinning N) (fun ip t => t.pin host = some ip) s := by
  apply Safe.query
  intro ips
  apply Safe.lift
  intro _ _
  apply Safe.lift
  intro _ hchosen
  have hne := require_eq_ok_iff.mp hchosen
  intro t hst hinv
  refine ⟨?_, ?_, fun _ => trivial⟩
  · cases hfound : (ips.getD []).find? fun ip => false || isPublicUnicast ip with
    | none =>
      rw [hfound] at hne
      exact absurd rfl hne
    | some ip => exact ⟨ip, by simpa using find?_some hfound, rfl⟩
  · intro _ ip u hexec
    simp only [Call.exec] at hexec
    split at hexec
    · cases hexec
      assumption
    · cases hexec
      exact if_pos rfl

theorem governs : (pinning N).Governs (dialer N false) fun _ _ _ => True where
  init := ⟨nofun, nofun⟩
  guarantee _ _ := id
  stable _ _ _ _ _ _ := trivial
  body addr s _ := by
    change (dialContext N false addr).Safe _ _ s
    apply Safe.lift
    rintro ⟨host, port⟩ _
    apply Safe.lift
    intro _ hport
    have h443 := require_eq_ok_iff.mp hport
    apply Safe.perform
    intro t _ _
    refine ⟨trivial, ?_⟩
    intro _ pinned u _ _ hexec
    have hdial (ip : String) (v : State) (hpin : v.pin host = some ip) :
        (perform (M := interface) (.dial ⟨host, ip, port⟩)).Safe (pinning N) (fun _ _ => True) v := by
      intro v' hv _
      exact ⟨⟨h443, hv host ip hpin⟩, fun _ _ _ _ => trivial, fun _ => trivial⟩
    cases pinned with
    | none =>
      apply Safe.bind (resolveAndPin_safe N host u)
      intro ip v _ hpin
      exact hdial ip v hpin
    | some ip =>
      obtain ⟨hpin, rfl⟩ := Prod.mk.inj (ok.inj hexec)
      exact hdial ip _ hpin

/-- Whatever the schedule and the answers: connections go to port 443 of public addresses, and those for one host to one. -/
theorem dials_are_pinned {p : Pool (dialer N false)} (h : Reached (dialer N false) p) :
    (∀ a ∈ p.state.attempts, a.port = "443" ∧ Public N a.ip) ∧
      ∀ a ∈ p.state.attempts, ∀ a' ∈ p.state.attempts, a.host = a'.host → a.ip = a'.ip := by
  obtain ⟨hpublic, hpinned⟩ := ((governs N).sound h).1
  constructor
  · intro a ha
    exact ⟨(hpinned a ha).1, hpublic _ _ (hpinned a ha).2⟩
  · intro a ha a' ha' hhost
    have hpin := (hpinned a ha).2
    rw [hhost, (hpinned a' ha').2] at hpin
    exact (Option.some.inj hpin).symm

/-- A library that knows one address, and a dial with it. -/
def sampleNet : Net := ⟨fun addr => some (addr, "443"), fun _ => "8.8.8.8"⟩

def sampleDial : Pool (dialer sampleNet false) :=
  ((Pool.start (dialer sampleNet false)).spawn "host").drive 0 () (fun _ => some [[10, 0, 0, 1], [8, 8, 8, 8]]) 5

theorem sample_dials_are_pinned : sampleDial.state.attempts = [⟨"host", "8.8.8.8", "443"⟩] ∧
    ∀ a ∈ sampleDial.state.attempts, a.port = "443" ∧ Public sampleNet a.ip := by
  refine ⟨by decide, (dials_are_pinned sampleNet ?_).1⟩
  exact Reachable.drive (Reachable.spawn .start _) _ _ _ _

end AgentNameService.Identity.PinningDialer
