import Leasehold.Proofs.Redis.Destination
import Leasehold.Redis.Client
import Mathlib.Data.List.TakeWhile

/-!
# Which settings a client can be made from

Settings are valid if their address can be read, whatever its parts say.  A client asks
for more: the path has to name a database, and the user and the password have to be the
octets of texts.  `NamesDatabase` and `Says` state this about the texts of the parts
alone, and `Client.Opens` puts it together.

A client is made from valid settings and a password exactly if there is one that opens
the address with it (`opens_iff`).  There are valid settings that no client can be made
from (`opens_iff_numbered`), for a name as a path is enough.
-/

namespace Leasehold.Redis

open Numeral Percent

variable {cs path : List Char} {n : Int}

/-! ## Numbers of databases -/

/-- The decimal numbers of 64 bits, with a sign or without. -/
inductive Decimal64 : List Char → Int → Prop where
  /-- A number without a sign. -/
  | plain {ds : List Char} (hne : ds ≠ []) (hdigits : ∀ c ∈ ds, isDigit c = true)
      (hlt : value ds < 2 ^ 63) : Decimal64 ds (value ds)
  /-- A number behind a plus sign. -/
  | plus {ds : List Char} (hne : ds ≠ []) (hdigits : ∀ c ∈ ds, isDigit c = true)
      (hlt : value ds < 2 ^ 63) : Decimal64 ('+' :: ds) (value ds)
  /-- A number behind a minus sign. -/
  | minus {ds : List Char} (hne : ds ≠ []) (hdigits : ∀ c ∈ ds, isDigit c = true)
      (hle : value ds ≤ 2 ^ 63) : Decimal64 ('-' :: ds) (-(value ds : Int))

theorem natural?_eq_some_iff {k : Nat} :
    natural? cs = some k ↔ cs ≠ [] ∧ (∀ c ∈ cs, isDigit c = true) ∧ value cs = k := by
  unfold natural?
  split
  next hnil => simp [hnil]
  next hne => rw [value?_ten_eq_some_iff, and_iff_right hne]

theorem wholeNumber?_minus (ds : List Char) :
    wholeNumber? ('-' :: ds) =
      ((natural? ds).filter (· ≤ 2 ^ 63)).map fun k => -(Int.ofNat k) := by
  show Option.map _ (Option.bind ((natural? ds).filter (· ≤ 2 ^ 63)) _) = _
  cases (natural? ds).filter (· ≤ 2 ^ 63) <;> rfl

theorem wholeNumber?_plus (ds : List Char) :
    wholeNumber? ('+' :: ds) = ((natural? ds).filter (· < 2 ^ 63)).map Int.ofNat := rfl

theorem wholeNumber?_plain (hminus : ∀ ds, cs ≠ '-' :: ds) (hplus : ∀ ds, cs ≠ '+' :: ds) :
    wholeNumber? cs = ((natural? cs).filter (· < 2 ^ 63)).map Int.ofNat := by
  unfold wholeNumber?
  split
  next ds => exact absurd rfl (hminus ds)
  next ds => exact absurd rfl (hplus ds)
  next => rfl

/-- A bounded number that is read, with what becomes of it. -/
theorem bounded_eq_some_iff {bound : Nat → Prop} [DecidablePred bound] {f : Nat → Int} :
    ((natural? cs).filter fun k => decide (bound k)).map f = some n ↔
      ∃ k, (cs ≠ [] ∧ (∀ c ∈ cs, isDigit c = true) ∧ value cs = k) ∧ bound k ∧ f k = n := by
  simp only [Option.map_eq_some_iff, Option.filter_eq_some_iff, natural?_eq_some_iff,
    decide_eq_true_eq, and_assoc]

/-- A number is read exactly as it is written. -/
theorem wholeNumber?_eq_some_iff : wholeNumber? cs = some n ↔ Decimal64 cs n := by
  constructor
  · intro h
    by_cases hminus : ∃ ds, cs = '-' :: ds
    · obtain ⟨ds, rfl⟩ := hminus
      rw [wholeNumber?_minus, bounded_eq_some_iff] at h
      obtain ⟨_, ⟨hne, hdigits, rfl⟩, hle, rfl⟩ := h
      exact .minus hne hdigits hle
    by_cases hplus : ∃ ds, cs = '+' :: ds
    · obtain ⟨ds, rfl⟩ := hplus
      rw [wholeNumber?_plus, bounded_eq_some_iff] at h
      obtain ⟨_, ⟨hne, hdigits, rfl⟩, hlt, rfl⟩ := h
      exact .plus hne hdigits hlt
    rw [wholeNumber?_plain (not_exists.mp hminus) (not_exists.mp hplus), bounded_eq_some_iff] at h
    obtain ⟨_, ⟨hne, hdigits, rfl⟩, hlt, rfl⟩ := h
    exact .plain hne hdigits hlt
  · intro h
    cases h with
    | minus hne hdigits hle =>
      rw [wholeNumber?_minus, bounded_eq_some_iff]
      exact ⟨_, ⟨hne, hdigits, rfl⟩, hle, rfl⟩
    | plus hne hdigits hlt =>
      rw [wholeNumber?_plus, bounded_eq_some_iff]
      exact ⟨_, ⟨hne, hdigits, rfl⟩, hlt, rfl⟩
    | plain hne hdigits hlt =>
      -- A digit is neither of the signs.
      have hsign : ∀ c, isDigit c = false → ∀ ds, cs ≠ c :: ds := by
        rintro c hc ds rfl
        rw [hdigits c (.head ds)] at hc
        cases hc
      rw [wholeNumber?_plain (hsign '-' rfl) (hsign '+' rfl), bounded_eq_some_iff]
      exact ⟨_, ⟨hne, hdigits, rfl⟩, hlt, rfl⟩

/-- No slash stands in a number. -/
theorem Decimal64.no_slash (h : Decimal64 cs n) : ∀ c ∈ cs, c ≠ '/' := by
  have hdigit : ∀ {ds : List Char}, (∀ c ∈ ds, isDigit c = true) → ∀ c ∈ ds, c ≠ '/' := by
    rintro ds hds c hc rfl
    cases hds _ hc
  cases h with
  | plain _ hdigits _ => exact hdigit hdigits
  | plus _ hdigits _ => exact List.forall_mem_cons.mpr ⟨by decide, hdigit hdigits⟩
  | minus _ hdigits _ => exact List.forall_mem_cons.mpr ⟨by decide, hdigit hdigits⟩

/-- A path names a database by its number, with any slashes around it; with nothing
between them it names the first one. -/
def NamesDatabase (path : List Char) (n : Int) : Prop :=
  ∃ front cs back, path = front ++ cs ++ back ∧ (∀ c ∈ front ++ back, c = '/') ∧
    (cs = [] ∧ n = 0 ∨ Decimal64 cs n)

/-- What is trimmed are slashes. -/
theorem trimSlashes_spec (path : List Char) :
    ∃ front back, path = front ++ trimSlashes path ++ back ∧ ∀ c ∈ front ++ back, c = '/' := by
  have hslash : ∀ {ds : List Char}, ∀ c ∈ ds.takeWhile (· == '/'), c = '/' := by
    intro ds c hc
    have hbeq : (c == '/') = true := List.mem_takeWhile_imp (p := (· == '/')) hc
    exact beq_iff_eq.mp hbeq
  refine ⟨path.takeWhile (· == '/'),
    ((path.dropWhile (· == '/')).reverse.takeWhile (· == '/')).reverse, ?_, fun c hc => ?_⟩
  · rw [trimSlashes, List.append_assoc, ← List.reverse_append, List.takeWhile_append_dropWhile,
      List.reverse_reverse, List.takeWhile_append_dropWhile]
  · obtain hc | hc := List.mem_append.mp hc
    · exact hslash c hc
    · exact hslash c (List.mem_reverse.mp hc)

/-- Slashes around a text without slashes are trimmed. -/
theorem trimSlashes_append {front back : List Char} (hslashes : ∀ c ∈ front ++ back, c = '/')
    (hcs : ∀ c ∈ cs, c ≠ '/') : trimSlashes (front ++ cs ++ back) = cs := by
  have hfront : ∀ c ∈ front, (c == '/') = true := fun c hc =>
    beq_iff_eq.mpr (hslashes c (List.mem_append_left back hc))
  have hback : ∀ c ∈ back, (c == '/') = true := fun c hc =>
    beq_iff_eq.mpr (hslashes c (List.mem_append_right front hc))
  have hmiddle : ∀ c ∈ cs, (c == '/') = false := fun c hc => beq_eq_false_iff_ne.mpr (hcs c hc)
  rw [trimSlashes, List.append_assoc, List.dropWhile_append_of_pos hfront]
  cases cs with
  | nil =>
    have hnil : back.dropWhile (· == '/') = [] := List.dropWhile_eq_nil_iff.mpr hback
    rw [List.nil_append, hnil]
    rfl
  | cons c cs =>
    have hhead : ((c :: cs) ++ back).dropWhile (· == '/') = (c :: cs) ++ back := by
      rw [List.cons_append, List.dropWhile_cons_of_neg (by simp [hmiddle c (.head cs)])]
    rw [hhead, List.reverse_append, Text.dropWhile_append_of, List.reverse_reverse]
    · exact fun c hc => hback c (List.mem_reverse.mp hc)
    · exact fun c hc => hmiddle c (List.mem_reverse.mp (List.mem_of_mem_head? hc))

/-- The database that is chosen is the one that the path names. -/
theorem databaseOf?_eq_some_iff : databaseOf? path = some n ↔ NamesDatabase path n := by
  constructor
  · intro h
    obtain ⟨front, back, hpath, hslashes⟩ := trimSlashes_spec path
    refine ⟨front, _, back, hpath, hslashes, ?_⟩
    unfold databaseOf? at h
    split at h
    next hnil => exact .inl ⟨hnil, (Option.some.inj h).symm⟩
    next => exact .inr (wholeNumber?_eq_some_iff.mp h)
  · rintro ⟨front, cs, back, rfl, hslashes, ⟨rfl, rfl⟩ | hnumber⟩
    · rw [databaseOf?, trimSlashes_append hslashes (by simp)]
    · rw [databaseOf?, trimSlashes_append hslashes hnumber.no_slash]
      cases cs with
      | nil => cases hnumber with | plain hne => exact absurd rfl hne
      | cons c cs => exact wholeNumber?_eq_some_iff.mpr hnumber

/-! ## Users and passwords -/

/-- What an encoded part says: nothing if it is empty, and otherwise the text whose octets
it stands for. -/
def Says (cs : List Char) : Option String → Prop
  | none => cs = []
  | some s => cs ≠ [] ∧ octets cs = Utf8.encode s.toList

theorem decoded_eq_ok_iff {e : ClientError} {text? : Option String} :
    decoded e cs = .ok text? ↔ Says cs text? := by
  unfold decoded
  split
  next hnil =>
    cases text? with
    | none => exact ⟨fun _ => hnil, fun _ => rfl⟩
    | some s => exact ⟨nofun, fun h => absurd hnil h.1⟩
  next hne =>
    split
    next s hs =>
      cases text? with
      | none => exact ⟨nofun, fun h => absurd h hne⟩
      | some t =>
        constructor
        · intro h
          cases h
          exact ⟨hne, by rw [String.toList_ofList]; exact decode?_eq_some_iff.mp hs⟩
        · intro h
          have ht := decode?_eq_some_iff.mpr h.2
          rw [hs] at ht
          cases ht
          rw [String.ofList_toList]
    next hnone =>
      cases text? with
      | none => exact ⟨nofun, fun h => absurd h hne⟩
      | some t =>
        refine ⟨nofun, fun h => ?_⟩
        have ht := decode?_eq_some_iff.mpr h.2
        rw [hnone] at ht
        cases ht

theorem decoded_eq_error_of {e : ClientError} (h : ∀ text?, ¬Says cs text?) :
    decoded e cs = .error e := by
  unfold decoded
  split
  next hnil => exact absurd hnil (h none)
  next hne =>
    split
    next s hs =>
      refine absurd ⟨hne, ?_⟩ (h (some (String.ofList s)))
      rw [String.toList_ofList]
      exact decode?_eq_some_iff.mp hs
    next => rfl

/-- Encoding a part changes nothing about what it says. -/
theorem says_encode_iff {text? : Option String} :
    Says (encode inUser cs) text? ↔ Says cs text? := by
  have hnil : encode inUser cs = [] ↔ cs = [] :=
    ⟨fun h => Classical.byContradiction fun hne => encode_ne_nil hne h, fun h => by rw [h]; rfl⟩
  cases text? with
  | none => exact hnil
  | some s => rw [Says, Says, Ne, hnil, spares_inUser.octets_encode]

/-! ## Clients -/

/-- The client opens an address with a password: it goes to the database that the path
names, as the user that is named there, with that password. -/
structure Client.Opens (c : Client) (address : Url) (password : List Char) : Prop where
  database : NamesDatabase address.path.text c.database
  user : Says address.user c.user?
  password : Says password c.password?

/-- What is at fault, with everything in front of it in order. -/
inductive Unopenable (address : Url) (password : List Char) : ClientError → Prop where
  | database (hnone : ∀ n, ¬NamesDatabase address.path.text n) :
      Unopenable address password .badDatabase
  | user {n : Int} (hdatabase : NamesDatabase address.path.text n)
      (hnone : ∀ text?, ¬Says address.user text?) : Unopenable address password .badUser
  | password {n : Int} {user? : Option String} (hdatabase : NamesDatabase address.path.text n)
      (huser : Says address.user user?) (hnone : ∀ text?, ¬Says password text?) :
      Unopenable address password .badPassword

/-- A URL for an address and a password: it differs from the address in the password
alone, and says there what the password says. -/
structure Carries (url address : Url) (password : List Char) : Prop where
  path : url.path = address.path
  user : url.user = address.user
  password : ∀ text?, Says url.password text? ↔ Says password text?

section

variable {url address : Url} {password : List Char} (hcarries : Carries url address password)

include hcarries

theorem Carries.ofUrl_of_opens {c : Client} (h : c.Opens address password) :
    Client.ofUrl url = .ok c := by
  rw [Client.ofUrl, hcarries.path, hcarries.user, databaseOf?_eq_some_iff.mpr h.database,
    decoded_eq_ok_iff.mpr h.user, decoded_eq_ok_iff.mpr ((hcarries.password _).mpr h.password)]
  rfl

theorem Carries.ofUrl_of_unopenable {e : ClientError} (h : Unopenable address password e) :
    Client.ofUrl url = .error e := by
  rw [Client.ofUrl, hcarries.path, hcarries.user]
  cases h with
  | database hnone =>
    cases hdatabase : databaseOf? address.path.text with
    | none => rfl
    | some n => exact absurd (databaseOf?_eq_some_iff.mp hdatabase) (hnone n)
  | user hdatabase hnone =>
    rw [databaseOf?_eq_some_iff.mpr hdatabase, decoded_eq_error_of hnone]
    rfl
  | password hdatabase huser hnone =>
    rw [databaseOf?_eq_some_iff.mpr hdatabase, decoded_eq_ok_iff.mpr huser,
      decoded_eq_error_of fun text? h => hnone text? ((hcarries.password text?).mp h)]
    rfl

omit hcarries in
/-- Either there is a client that opens an address, or something is at fault. -/
theorem opens_or_unopenable (address : Url) (password : List Char) :
    (∃ c : Client, c.Opens address password) ∨ ∃ e, Unopenable address password e := by
  by_cases hdatabase : ∃ n, NamesDatabase address.path.text n
  · obtain ⟨database, hdatabase⟩ := hdatabase
    by_cases huser : ∃ text?, Says address.user text?
    · obtain ⟨user?, huser⟩ := huser
      by_cases hpassword : ∃ text?, Says password text?
      · obtain ⟨password?, hpassword⟩ := hpassword
        exact .inl ⟨{ database, user?, password? }, hdatabase, huser, hpassword⟩
      · exact .inr ⟨_, .password hdatabase huser (not_exists.mp hpassword)⟩
    · exact .inr ⟨_, .user hdatabase (not_exists.mp huser)⟩
  · exact .inr ⟨_, .database (not_exists.mp hdatabase)⟩

/-- The client that is made is the one that opens the address. -/
theorem Carries.ofUrl_eq_ok_iff {c : Client} :
    Client.ofUrl url = .ok c ↔ c.Opens address password := by
  refine ⟨fun h => ?_, hcarries.ofUrl_of_opens⟩
  obtain ⟨c', hopens⟩ | ⟨e, hfault⟩ := opens_or_unopenable address password
  · rw [hcarries.ofUrl_of_opens hopens] at h
    cases h
    exact hopens
  · rw [hcarries.ofUrl_of_unopenable hfault] at h
    cases h

/-- The error that is reported is what is at fault first. -/
theorem Carries.ofUrl_eq_error_iff {e : ClientError} :
    Client.ofUrl url = .error e ↔ Unopenable address password e := by
  refine ⟨fun h => ?_, hcarries.ofUrl_of_unopenable⟩
  obtain ⟨c, hopens⟩ | ⟨e', hfault⟩ := opens_or_unopenable address password
  · rw [hcarries.ofUrl_of_opens hopens] at h
    cases h
  · rw [hcarries.ofUrl_of_unopenable hfault] at h
    cases h
    exact hfault

end

namespace Settings

/-- The password that is given at an address: the one of the address if there is none
beside it, or an empty one. -/
def passwordAt (address : Url) : Option String → List Char
  | none => address.password
  | some p => if p = "" then address.password else p.toList

/-- What is said if there is no time to connect. -/
def timedOut (s : Settings) : StoreError :=
  .connection ("timed out after " ++ s.connectTimeout.brief ++ " connecting to " ++ s.addr)

theorem exists_url?_of_valid {s : Leasehold.Settings} (h : s.invalid? = none) :
    ∃ address, (s.redis.withPassword? none).url? = some address := by
  unfold Leasehold.Settings.invalid? at h
  cases hfault : s.pool.fault? with
  | some fault =>
    rw [hfault] at h
    cases h
  | none =>
    rw [hfault] at h
    dsimp only at h
    split at h
    next => cases h
    split at h
    next => cases h
    split at h
    next => cases h
    next hurl =>
      obtain ⟨url, hurl⟩ := Option.ne_none_iff_exists'.mp hurl
      obtain ⟨address, hread, -⟩ := Option.map_eq_some_iff.mp hurl
      exact ⟨address, (url?_withPassword?_none s.redis).trans hread⟩

theorem exists_carries {s : Settings} {address : Url}
    (haddress : (s.withPassword? none).url? = some address) (p? : Option String) :
    ∃ url, (s.withPassword? p?).url? = some url ∧ Carries url address (passwordAt address p?) := by
  cases p? with
  | none => exact ⟨address, haddress, rfl, rfl, fun _ => .rfl⟩
  | some p =>
    by_cases hp : p = ""
    · subst hp
      exact ⟨address, (url?_withPassword?_empty s).trans haddress, rfl, rfl, fun _ => .rfl⟩
    · refine ⟨_, url?_withPassword? haddress hp, rfl, rfl, fun text? => ?_⟩
      rw [passwordAt, if_neg hp]
      exact says_encode_iff

/-- With every password, valid settings have a URL, which is read again as it was written.
A client is made from it exactly if there is one that opens the address, and then nothing
but the time to connect can be missing; otherwise the first part at fault is reported. -/
theorem opens_iff (s : Leasehold.Settings) (hs : s.invalid? = none) (p? : Option String) :
    ∃ address url, Url.ofText? (Url.scheme ++ s.redis.addr.toList) = some address ∧
      (s.redis.withPassword? p?).url? = some url ∧ Url.ofText? url.text = some url ∧
      (∀ c, Client.openText url.text = .ok c ↔ c.Opens address (passwordAt address p?)) ∧
      (∀ e, Client.openText url.text = .error e ↔ Unopenable address (passwordAt address p?) e) ∧
      (∀ c, c.Opens address (passwordAt address p?) → (s.redis.withPassword? p?).client =
        if s.redis.connectTimeout.isZero then .error s.redis.timedOut else .ok c) ∧
      ∀ e, Unopenable address (passwordAt address p?) e →
        (s.redis.withPassword? p?).client = .error (.command e.message) := by
  obtain ⟨address, haddress⟩ := exists_url?_of_valid hs
  obtain ⟨url, hurl, hcarries⟩ := exists_carries haddress p?
  have hread : Url.ofText? url.text = some url := Url.ofText?_text (clean_of_url? hurl)
  have hopen : Client.openText url.text = Client.ofUrl url := by rw [Client.openText, hread]
  refine ⟨address, url, ?_, hurl, hread, fun c => ?_, fun e => ?_, fun c h => ?_, fun e h => ?_⟩
  · rw [← url?_withPassword?_none, haddress]
  · rw [hopen, hcarries.ofUrl_eq_ok_iff]
  · rw [hopen, hcarries.ofUrl_eq_error_iff]
  · rw [client, hurl]
    dsimp only
    rw [hopen, hcarries.ofUrl_of_opens h]
    rfl
  · rw [client, hurl]
    dsimp only
    rw [hopen, hcarries.ofUrl_of_unopenable h]

/-- Of two valid settings, a client is made from the one with a number as its path, and
none from the one with a name. -/
theorem opens_iff_numbered :
    ∃ s s' : Leasehold.Settings, s.invalid? = none ∧ s'.invalid? = none ∧
      s.redis.addr = "localhost:6379/2" ∧ s'.redis.addr = "localhost:6379/cache" ∧
      (s.redis.withPassword? (some "p@ss")).client =
        .ok { database := 2, password? := some "p@ss" } ∧
      (s'.redis.withPassword? none).client = .error (.command ClientError.badDatabase.message) := by
  have hs : Leasehold.Settings.invalid? { redis := { addr := "localhost:6379/2" } } = none := by
    decide +kernel
  have hs' : Leasehold.Settings.invalid? { redis := { addr := "localhost:6379/cache" } } = none :=
    by decide +kernel
  obtain ⟨address, -, haddress, -, -, -, -, hclient, -⟩ := opens_iff _ hs (some "p@ss")
  obtain ⟨address', -, haddress', -, -, -, -, -, hclient'⟩ := opens_iff _ hs' none
  have hpath : address.path.text = ['/', '2'] ∧ address.user = [] := by
    have h : (Url.ofText? (Url.scheme ++ "localhost:6379/2".toList)).map
        (fun u => (u.path.text, u.user)) = some (['/', '2'], []) := by decide +kernel
    rw [haddress] at h
    exact Prod.mk.inj (Option.some.inj h)
  have hpath' : address'.path.text = "/cache".toList := by
    have h : (Url.ofText? (Url.scheme ++ "localhost:6379/cache".toList)).map (·.path.text) =
        some "/cache".toList := by decide +kernel
    rw [haddress'] at h
    exact Option.some.inj h
  refine ⟨_, _, hs, hs', rfl, rfl, ?_, ?_⟩
  · refine hclient { database := 2, password? := some "p@ss" } ⟨?_, hpath.2, ?_⟩
    · rw [hpath.1]
      exact databaseOf?_eq_some_iff.mp (by decide)
    · rw [passwordAt, if_neg (by decide)]
      exact ⟨by decide, octets_of_not_hasEscape (by decide)⟩
  · refine hclient' _ (.database fun n hn => ?_)
    rw [hpath'] at hn
    have hnone : databaseOf? "/cache".toList = none := by decide
    rw [databaseOf?_eq_some_iff.mpr hn] at hnone
    cases hnone

end Settings

end Leasehold.Redis
