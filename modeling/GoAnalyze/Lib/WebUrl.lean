import Mathlib.Data.List.DropRight
import Mathlib.Tactic

/-! The origin of a URL reference: the states of the basic URL parser up to the port, on a
page whose own URL is an http or https one. The states after the port do not fail and do
not touch the origin. The parser of hosts is a parameter. -/

namespace WebUrl

/-- The special schemes with an authority: all but `file`. -/
inductive Scheme where
  | http
  | https
  | ws
  | wss
  | ftp
deriving DecidableEq

def Scheme.ofName (name : List Char) : Option Scheme :=
  if name = "http".toList then some .http
  else if name = "https".toList then some .https
  else if name = "ws".toList then some .ws
  else if name = "wss".toList then some .wss
  else if name = "ftp".toList then some .ftp
  else none

def Scheme.defaultPort : Scheme → ℕ
  | http | ws => 80
  | https | wss => 443
  | ftp => 21

/-- `port` is `none` for the default port of the scheme. -/
structure Origin (Host : Type) where
  scheme : Scheme
  host : Host
  port : Option ℕ
deriving DecidableEq

/-- The origin of a page that is loaded over http or https. -/
structure WebOrigin (Host : Type) extends Origin Host where
  web : scheme = .http ∨ scheme = .https

/-! ## Characters -/

def isC0OrSpace (c : Char) : Bool := c.toNat ≤ 32

def isTabOrNewline (c : Char) : Bool := c = '\t' || c = '\n' || c = '\r'

def isSchemeChar (c : Char) : Bool := c.isAlphanum || c = '+' || c = '-' || c = '.'

def isSlash (c : Char) : Bool := c = '/' || c = '\\'

def endsAuthority (c : Char) : Bool := isSlash c || c = '?' || c = '#'

/-- The input without the characters that the parser removes first. -/
def clean (input : List Char) : List Char :=
  ((input.dropWhile isC0OrSpace).rdropWhile isC0OrSpace).filter (!isTabOrNewline ·)

/-! ## The states -/

section States

variable {Host : Type} (parseHost : List Char → Option Host)

def portEnd (scheme : Scheme) (host : Host) (buffer : List Char) : Option (Origin Host) :=
  if buffer = [] then some ⟨scheme, host, none⟩
  else
    let port := Nat.ofDigitChars 10 buffer 0
    if 65535 < port then none
    else some ⟨scheme, host, if port = scheme.defaultPort then none else some port⟩

def portState (scheme : Scheme) (host : Host) (buffer : List Char) :
    List Char → Option (Origin Host)
  | [] => portEnd scheme host buffer
  | c :: rest =>
    if c.isDigit then portState scheme host (buffer ++ [c]) rest
    else if endsAuthority c then portEnd scheme host buffer
    else none

/-- `insideBrackets` after the character. -/
def insideBrackets (inside : Bool) (c : Char) : Bool :=
  if c = '[' then true else if c = ']' then false else inside

def hostEnd (scheme : Scheme) (buffer : List Char) : Option (Origin Host) :=
  if buffer = [] then none else (parseHost buffer).map fun host => ⟨scheme, host, none⟩

def hostState (scheme : Scheme) (inside : Bool) (buffer : List Char) :
    List Char → Option (Origin Host)
  | [] => hostEnd parseHost scheme buffer
  | c :: rest =>
    if c = ':' && !inside then
      if buffer = [] then none
      else (parseHost buffer).bind fun host => portState scheme host [] rest
    else if endsAuthority c then hostEnd parseHost scheme buffer
    else hostState scheme (insideBrackets inside c) (buffer ++ [c]) rest

/-- At the end of the authority the parser goes back to where its buffer begins. -/
def authorityEnd (scheme : Scheme) (atSignSeen : Bool) (buffer remaining : List Char) :
    Option (Origin Host) :=
  if atSignSeen && buffer = [] then none
  else hostState parseHost scheme false [] (buffer ++ remaining)

def authorityState (scheme : Scheme) (atSignSeen : Bool) (buffer : List Char) :
    List Char → Option (Origin Host)
  | [] => authorityEnd parseHost scheme atSignSeen buffer []
  | c :: rest =>
    if c = '@' then authorityState scheme true [] rest
    else if endsAuthority c then authorityEnd parseHost scheme atSignSeen buffer (c :: rest)
    else authorityState scheme atSignSeen (buffer ++ [c]) rest

def specialAuthorityIgnoreSlashesState (scheme : Scheme) : List Char → Option (Origin Host)
  | [] => authorityState parseHost scheme false [] []
  | c :: rest =>
    if isSlash c then specialAuthorityIgnoreSlashesState scheme rest
    else authorityState parseHost scheme false [] (c :: rest)

def specialAuthoritySlashesState (scheme : Scheme) : List Char → Option (Origin Host)
  | '/' :: '/' :: rest => specialAuthorityIgnoreSlashesState parseHost scheme rest
  | rest => specialAuthorityIgnoreSlashesState parseHost scheme rest

variable (base : Origin Host)

def relativeSlashState : List Char → Option (Origin Host)
  | [] => some base
  | c :: rest =>
    if isSlash c then specialAuthorityIgnoreSlashesState parseHost base.scheme rest
    else some base

def relativeState : List Char → Option (Origin Host)
  | [] => some base
  | c :: rest => if isSlash c then relativeSlashState parseHost base rest else some base

def specialRelativeOrAuthorityState : List Char → Option (Origin Host)
  | '/' :: '/' :: rest => specialAuthorityIgnoreSlashesState parseHost base.scheme rest
  | rest => relativeState parseHost base rest

/-- After the colon. A URL of another scheme is not one of the web. -/
def schemeEnd (name rest : List Char) : Option (Origin Host) :=
  match Scheme.ofName name with
  | some scheme =>
    if scheme = base.scheme then specialRelativeOrAuthorityState parseHost base rest
    else specialAuthoritySlashesState parseHost scheme rest
  | none => none

/-- Without a scheme the parser starts over, at the beginning of `text`. -/
def schemeState (text buffer : List Char) : List Char → Option (Origin Host)
  | [] => relativeState parseHost base text
  | c :: rest =>
    if isSchemeChar c then schemeState text (buffer ++ [c.toLower]) rest
    else if c = ':' then schemeEnd parseHost base buffer rest
    else relativeState parseHost base text

def schemeStartState : List Char → Option (Origin Host)
  | [] => relativeState parseHost base []
  | c :: rest =>
    if c.isAlpha then schemeState parseHost base (c :: rest) [c.toLower] rest
    else relativeState parseHost base (c :: rest)

end States

/-- The origin of the URL that the reference resolves to, where it has one. -/
def resolve {Host : Type} (parseHost : List Char → Option Host) (base : Origin Host)
    (input : String) : Option (Origin Host) :=
  schemeStartState parseHost base (clean input.toList)

/-! ## What the states read -/

/-- What the text calls its scheme, and what follows the colon. -/
def splitScheme (text : List Char) : Option (List Char × List Char) :=
  if text.head?.any Char.isAlpha then
    match text.dropWhile isSchemeChar with
    | ':' :: rest => some ((text.takeWhile isSchemeChar).map Char.toLower, rest)
    | _ => none
  else none

/-- What follows the last `@`. -/
def afterAt (text : List Char) : List Char := text.rtakeWhile fun c => !decide (c = '@')

/-- The part of the authority after its user names. -/
def hostAndPort (text : List Char) : List Char := afterAt (text.takeWhile (!endsAuthority ·))

/-- Up to the first colon outside brackets, and what follows it. -/
def splitPort (inside : Bool) : List Char → List Char × Option (List Char)
  | [] => ([], none)
  | c :: rest =>
    if c = ':' && !inside then ([], some rest)
    else
      let (host, port) := splitPort (insideBrackets inside c) rest
      (c :: host, port)

/-- A port as an origin has it: `some none` is the default. -/
def readPort (scheme : Scheme) : Option (List Char) → Option (Option ℕ)
  | none => some none
  | some digits =>
    if digits.all Char.isDigit then
      if digits = [] then some none
      else
        let port := Nat.ofDigitChars 10 digits 0
        if 65535 < port then none
        else some (if port = scheme.defaultPort then none else some port)
    else none

def beginsAuthority : List Char → Bool
  | c :: d :: _ => isSlash c && isSlash d
  | _ => false

section Local

variable {Host : Type} (parseHost : List Char → Option Host) (base : Origin Host)

/-- The authority in the text is that of the page. -/
structure NamesHost (text : List Char) : Prop where
  host_ne : (splitPort false (hostAndPort text)).1 ≠ []
  host : parseHost (splitPort false (hostAndPort text)).1 = some base.host
  port : readPort base.scheme (splitPort false (hostAndPort text)).2 = some base.port

/-- Two slashes, of either kind, are followed by the authority of the page. -/
def KeepsHost (text : List Char) : Prop :=
  beginsAuthority text → NamesHost parseHost base (text.dropWhile isSlash)

/-- The text has no scheme or that of the page, and no authority or that of the page. -/
def KeepsOrigin (text : List Char) : Prop :=
  match splitScheme text with
  | some (name, rest) => Scheme.ofName name = some base.scheme ∧ KeepsHost parseHost base rest
  | none => KeepsHost parseHost base text

end Local

/-! ## From the states to what they read -/

section Reading

variable {Host : Type} {parseHost : List Char → Option Host} {scheme : Scheme}

theorem digit_not_endsAuthority {c : Char} (h : c.isDigit) : endsAuthority c = false := by
  by_contra hends
  simp only [endsAuthority, isSlash, Bool.not_eq_false, Bool.or_eq_true, decide_eq_true_eq] at hends
  rcases hends with ((rfl | rfl) | rfl) | rfl <;> exact absurd h (by decide)

theorem endsAuthority_colon : endsAuthority ':' = false := by decide

theorem portState_eq (host : Host) (buffer text : List Char) (hbuffer : buffer.all Char.isDigit) :
    portState scheme host buffer text =
      (readPort scheme (some (buffer ++ text.takeWhile (!endsAuthority ·)))).map
        fun port => ⟨scheme, host, port⟩ := by
  have hend : ∀ buffer : List Char, buffer.all Char.isDigit →
      portEnd scheme host buffer =
        (readPort scheme (some buffer)).map fun port => ⟨scheme, host, port⟩ := by
    intro buffer hbuffer
    simp only [portEnd, readPort, hbuffer, if_true]
    split_ifs <;> rfl
  induction text generalizing buffer with
  | nil => simpa [portState] using hend buffer hbuffer
  | cons c rest ih =>
    rw [portState]
    split_ifs with hdigit hends
    · rw [ih _ (by simpa [hdigit] using hbuffer)]
      simp [digit_not_endsAuthority hdigit]
    · simpa [hends] using hend buffer hbuffer
    · simp [hends, readPort, hdigit]

/-- The host and the port that follow. -/
def readHost (parseHost : List Char → Option Host) (scheme : Scheme)
    (parts : List Char × Option (List Char)) : Option (Origin Host) :=
  if parts.1 = [] then none
  else (parseHost parts.1).bind fun host =>
    (readPort scheme parts.2).map fun port => ⟨scheme, host, port⟩

theorem hostEnd_eq (buffer : List Char) :
    hostEnd parseHost scheme buffer = readHost parseHost scheme (buffer, none) := by
  unfold hostEnd readHost
  split_ifs
  · rfl
  · cases parseHost buffer <;> rfl

theorem hostState_eq (inside : Bool) (buffer text : List Char) :
    hostState parseHost scheme inside buffer text =
      readHost parseHost scheme
        ((splitPort inside (text.takeWhile (!endsAuthority ·))).map (buffer ++ ·) id) := by
  induction text generalizing inside buffer with
  | nil => simpa [hostState, splitPort] using hostEnd_eq buffer
  | cons c rest ih =>
    rw [hostState]
    split_ifs with hcolon hbuffer hends
    · obtain ⟨rfl, rfl⟩ : c = ':' ∧ inside = false := by simpa using hcolon
      simp [hbuffer, readHost, splitPort, endsAuthority_colon]
    · obtain ⟨rfl, rfl⟩ : c = ':' ∧ inside = false := by simpa using hcolon
      simp [hbuffer, readHost, splitPort, endsAuthority_colon, portState_eq _ [] _ rfl]
    · simpa [hends, splitPort] using hostEnd_eq buffer
    · rw [ih]
      simp [hends, splitPort, hcolon, Prod.map]

theorem afterAt_of_notMem {text : List Char} (h : '@' ∉ text) : afterAt text = text :=
  List.rtakeWhile_eq_self_iff.mpr fun c hc => by
    have hne : c ≠ '@' := fun heq => h (heq ▸ hc)
    simpa using hne

theorem afterAt_append_at (before after : List Char) :
    afterAt (before ++ '@' :: after) = afterAt after := by
  simp only [afterAt, List.rtakeWhile, List.reverse_append, List.reverse_cons, List.append_assoc,
    List.takeWhile_append]
  split
  · next hall =>
    rw [(List.takeWhile_prefix _).eq_of_length hall]
    simp
  · rfl

theorem authorityEnd_eq (atSignSeen : Bool) (buffer remaining : List Char)
    (hremaining : remaining.takeWhile (!endsAuthority ·) = []) :
    authorityEnd parseHost scheme atSignSeen buffer remaining =
      hostState parseHost scheme false [] (buffer ++ remaining) := by
  unfold authorityEnd
  split_ifs with hempty
  · obtain ⟨-, rfl⟩ : atSignSeen = true ∧ buffer = [] := by simpa using hempty
    simp [hostState_eq, hremaining, splitPort, readHost]
  · rfl

/-- The parser goes back to the last `@`. -/
theorem authorityState_eq (atSignSeen : Bool) (buffer text : List Char) (hbuffer : '@' ∉ buffer) :
    authorityState parseHost scheme atSignSeen buffer text =
      hostState parseHost scheme false []
        (afterAt (buffer ++ text.takeWhile (!endsAuthority ·)) ++
          text.dropWhile (!endsAuthority ·)) := by
  induction text generalizing atSignSeen buffer with
  | nil => simpa [authorityState, afterAt_of_notMem hbuffer] using
      authorityEnd_eq atSignSeen buffer [] rfl
  | cons c rest ih =>
    rw [authorityState]
    split_ifs with hat hends
    · subst hat
      rw [ih true [] List.not_mem_nil]
      simp [show endsAuthority '@' = false by decide, afterAt_append_at]
    · rw [authorityEnd_eq _ _ _ (by simp [hends])]
      simp [hends, afterAt_of_notMem hbuffer]
    · rw [ih atSignSeen (buffer ++ [c]) (by simp [hbuffer, Ne.symm hat])]
      simp [hends]

theorem takeWhile_afterAt (text : List Char) :
    (afterAt (text.takeWhile (!endsAuthority ·)) ++ text.dropWhile (!endsAuthority ·)).takeWhile
      (!endsAuthority ·) = hostAndPort text := by
  have hpart : ∀ c ∈ afterAt (text.takeWhile (!endsAuthority ·)), !endsAuthority c := fun c hc =>
    List.mem_takeWhile_imp (p := fun c => !endsAuthority c) ((List.rtakeWhile_suffix _ _).subset hc)
  have hrest : (text.dropWhile (!endsAuthority ·)).takeWhile (!endsAuthority ·) = [] :=
    List.takeWhile_eq_nil_iff.mpr fun hlength => List.dropWhile_get_zero_not _ _ hlength
  rw [List.takeWhile_append_of_pos hpart, hrest, List.append_nil, hostAndPort]

theorem authority_eq (text : List Char) :
    authorityState parseHost scheme false [] text =
      readHost parseHost scheme (splitPort false (hostAndPort text)) := by
  rw [authorityState_eq false [] text List.not_mem_nil, hostState_eq, List.nil_append,
    takeWhile_afterAt]
  simp [Prod.map]

theorem specialAuthorityIgnoreSlashesState_eq (text : List Char) :
    specialAuthorityIgnoreSlashesState parseHost scheme text =
      readHost parseHost scheme (splitPort false (hostAndPort (text.dropWhile isSlash))) := by
  rw [← authority_eq]
  induction text with
  | nil => rfl
  | cons c rest ih =>
    rw [specialAuthorityIgnoreSlashesState]
    split_ifs with hslash
    · rw [ih, List.dropWhile_cons_of_pos hslash]
    · rw [List.dropWhile_cons_of_neg hslash]

theorem specialAuthoritySlashesState_eq (text : List Char) :
    specialAuthoritySlashesState parseHost scheme text =
      specialAuthorityIgnoreSlashesState parseHost scheme text := by
  unfold specialAuthoritySlashesState
  split <;> rfl

variable {base : Origin Host}

theorem relativeState_eq (text : List Char) :
    relativeState parseHost base text =
      if beginsAuthority text then specialAuthorityIgnoreSlashesState parseHost base.scheme text
      else some base := by
  rcases text with _ | ⟨c, _ | ⟨d, rest⟩⟩
  · rfl
  · simp [relativeState, relativeSlashState, beginsAuthority]
  · by_cases hc : isSlash c <;> by_cases hd : isSlash d <;>
      simp [relativeState, relativeSlashState, beginsAuthority,
        specialAuthorityIgnoreSlashesState, hc, hd]

theorem specialRelativeOrAuthorityState_eq (text : List Char) :
    specialRelativeOrAuthorityState parseHost base text = relativeState parseHost base text := by
  unfold specialRelativeOrAuthorityState
  split <;> rfl

theorem schemeState_eq (text buffer rest : List Char) :
    schemeState parseHost base text buffer rest = match rest.dropWhile isSchemeChar with
      | ':' :: after =>
        schemeEnd parseHost base (buffer ++ (rest.takeWhile isSchemeChar).map Char.toLower) after
      | _ => relativeState parseHost base text := by
  induction rest generalizing buffer with
  | nil => rfl
  | cons c rest ih =>
    rw [schemeState]
    split_ifs with hc hcolon
    · simp [ih, hc]
    · subst hcolon
      simp [hc]
    · simp [hc, hcolon]

theorem schemeStartState_eq (text : List Char) :
    schemeStartState parseHost base text = match splitScheme text with
      | some (name, rest) => schemeEnd parseHost base name rest
      | none => relativeState parseHost base text := by
  rcases text with _ | ⟨c, rest⟩
  · rfl
  · rw [schemeStartState]
    split_ifs with hc
    · have hscheme : isSchemeChar c := by simp [isSchemeChar, Char.isAlphanum, hc]
      rw [schemeState_eq]
      simp only [splitScheme, List.head?_cons, Option.any_some, hc, if_true, hscheme,
        List.dropWhile_cons_of_pos, List.takeWhile_cons_of_pos]
      generalize rest.dropWhile isSchemeChar = remaining
      split <;> rfl
    · simp [splitScheme, hc]

/-! ### References that keep the origin -/

theorem scheme_of_readHost {parts : List Char × Option (List Char)} {origin : Origin Host}
    (h : readHost parseHost scheme parts = some origin) : origin.scheme = scheme := by
  unfold readHost at h
  split_ifs at h
  obtain ⟨host, -, hport⟩ := Option.bind_eq_some_iff.mp h
  obtain ⟨port, -, rfl⟩ := Option.map_eq_some_iff.mp hport
  rfl

theorem readHost_eq_base_iff (text : List Char) :
    readHost parseHost base.scheme (splitPort false (hostAndPort text)) = some base ↔
      NamesHost parseHost base text := by
  unfold readHost
  constructor
  · intro h
    split_ifs at h with hempty
    obtain ⟨host, hhost, hport⟩ := Option.bind_eq_some_iff.mp h
    obtain ⟨port, hport, heq⟩ := Option.map_eq_some_iff.mp hport
    rw [← heq] at hport ⊢
    exact ⟨hempty, hhost, hport⟩
  · intro h
    rw [if_neg h.host_ne, h.host, h.port]
    rfl

theorem relativeState_eq_base_iff (text : List Char) :
    relativeState parseHost base text = some base ↔ KeepsHost parseHost base text := by
  rw [relativeState_eq, KeepsHost, ← readHost_eq_base_iff,
    ← specialAuthorityIgnoreSlashesState_eq]
  split_ifs with hbegins <;> simp [hbegins]

theorem schemeEnd_eq_base_iff (name rest : List Char) :
    schemeEnd parseHost base name rest = some base ↔
      Scheme.ofName name = some base.scheme ∧ KeepsHost parseHost base rest := by
  unfold schemeEnd
  cases hname : Scheme.ofName name with
  | none => simp
  | some scheme =>
    dsimp only
    split_ifs with heq
    · simp [heq, specialRelativeOrAuthorityState_eq, relativeState_eq_base_iff]
    · -- a web URL of another scheme
      rw [specialAuthoritySlashesState_eq, specialAuthorityIgnoreSlashesState_eq]
      refine iff_of_false (fun h => heq (scheme_of_readHost h).symm) ?_
      rintro ⟨hscheme, -⟩
      exact heq (Option.some.inj hscheme)

/-- A reference resolves to the origin of the page exactly when it keeps it. -/
theorem resolve_eq_base_iff (input : String) :
    resolve parseHost base input = some base ↔
      KeepsOrigin parseHost base (clean input.toList) := by
  rw [resolve, schemeStartState_eq, KeepsOrigin]
  split
  · exact schemeEnd_eq_base_iff _ _
  · exact relativeState_eq_base_iff _

end Reading

end WebUrl
