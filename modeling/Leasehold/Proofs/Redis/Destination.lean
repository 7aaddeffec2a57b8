import Leasehold.Proofs.Redis.Password

/-!
# Where a password leads

The URL of a server is the same text with any two passwords, but for the part between
the user's name and the `@` in front of the host.  What stands in that part has none of
the characters that end a part of an address, so the URL is read again with the same
user, host, port, path, query and fragment, whatever the password is
(`password_redirects_nothing`).
-/

namespace Leasehold

open Percent

/-! ## The text around a password -/

namespace Url

/-- What an address says behind the user and the password. -/
def serverText (u : Url) : List Char :=
  u.host.text ++ portText u.port? ++ (u.path.text ++ tailText u.query? u.fragment?)

theorem text_eq_serverText (u : Url) : u.text = scheme ++ (u.userText ++ u.serverText) := text_eq u

theorem userText_of_password {u : Url} (h : u.password ≠ []) :
    u.userText = u.user ++ ':' :: u.password ++ ['@'] := by
  have hinfo : u.userInfo = u.user ++ ':' :: u.password := by
    unfold userInfo
    split
    next hnil => exact absurd hnil h
    next => rfl
  rw [userText_eq, hinfo, if_neg (by simp)]

/-- With a password, the text behind the user is a colon, the password, an `@`, and what
stood behind the user before. -/
theorem text_withPassword (u : Url) {password : List Char} (h : password ≠ []) :
    (u.withPassword password).text =
      scheme ++ (u.user ++ ':' :: encode inUser password ++ '@' :: u.serverText) := by
  have hne : (u.withPassword password).password ≠ [] := encode_ne_nil h
  have hserver : (u.withPassword password).serverText = u.serverText := rfl
  rw [text_eq_serverText, userText_of_password hne, hserver, List.append_assoc, List.append_assoc,
    List.singleton_append, List.append_assoc]
  rfl

/-- The characters that end a part of an address, or have a meaning in one. -/
def delimiters : List Char := ['/', '?', '#', '@', ':', '[', ']', '\\']

/-- A character that can stand in a password is visible, in ASCII, and ends nothing. -/
theorem plain_of_not_inUser {c : Char} (h : inUser c = false) :
    0x20 < c.toNat ∧ c.toNat < 0x7F ∧ c ∉ delimiters := by
  have hascii : c.toNat < 0x7F := by
    have hcontrol := not_isControl (not_inFragment (not_inPath h))
    simp [isControl] at hcontrol
    exact hcontrol.2
  refine ⟨printable_of_inPath (not_inPath h), hascii, fun hmem => ?_⟩
  have hencoded : ∀ d ∈ delimiters, inUser d = true := List.all_eq_true.mp (by decide)
  rw [hencoded c hmem] at h
  cases h

end Url

/-! ## The same server with every password -/

namespace Redis.Settings

theorem url?_withPassword?_empty (s : Settings) :
    (s.withPassword? (some "")).url? = (s.withPassword? none).url? := by
  simp [url?, withPassword?]

theorem url?_withPassword?_none (s : Settings) :
    (s.withPassword? none).url? = Url.ofText? (Url.scheme ++ s.addr.toList) := by
  simp [url?, withPassword?]

/-- Without a password, or with an empty one, the URL is the address with the password
that it has.  Any other password takes the place of that one and changes nothing else:
neither the text around it nor what a reader finds there. -/
theorem password_redirects_nothing (s : Settings) (url : Url)
    (hurl : (s.withPassword? none).url? = some url) :
    (Url.ofText? (Url.scheme ++ s.addr.toList) = some url ∧
      (s.withPassword? (some "")).url? = some url ∧ Url.ofText? url.text = some url ∧
      url.text = Url.scheme ++ (url.userText ++ url.serverText)) ∧
    ∀ p, p ≠ "" → ∃ url', (s.withPassword? (some p)).url? = some url' ∧
      url' = { url with password := encode inUser p.toList } ∧
      Url.ofText? url'.text = some url' ∧
      url'.text = Url.scheme ++ (url.user ++ ':' :: url'.password ++ '@' :: url.serverText) ∧
      ∀ c ∈ url'.password, 0x20 < c.toNat ∧ c.toNat < 0x7F ∧ c ∉ Url.delimiters := by
  refine ⟨⟨?_, ?_, Url.ofText?_text (clean_of_url? hurl), url.text_eq_serverText⟩, fun p hp => ?_⟩
  · rw [← url?_withPassword?_none, hurl]
  · rw [url?_withPassword?_empty, hurl]
  · have hwritten := url?_withPassword? hurl hp
    have hclean := clean_of_url? hwritten
    have hne : p.toList ≠ [] := by simpa using hp
    exact ⟨_, hwritten, rfl, Url.ofText?_text hclean, url.text_withPassword hne,
      fun c hc => Url.plain_of_not_inUser (hclean.password c hc)⟩

/-- The URL of an address with a user, a password, an address of the sixth version, a port,
a path and a query. -/
def remote : Url where
  user := ['m', 'e']
  password := ['o', 'l', 'd']
  host := .ipv6 ⟨[0, 0, 0, 0, 0, 0, 0, 1]⟩
  port? := some 7000
  path := [['2']]
  query? := some ['x']

/-- A password that looks like another server leads to the same one. -/
theorem password_redirects_nothing_elsewhere :
    ∃ s url', s.addr = "me:old@[::1]:7000/2?x" ∧ (withPassword? s none).url? = some remote ∧
      (s.withPassword? (some "@evil:1/9?#é")).url? = some url' ∧
      Url.ofText? url'.text = some url' ∧ url'.host = remote.host ∧ url'.path = remote.path ∧
      url'.text = "redis://me:%40evil%3A1%2F9%3F%23%C3%A9@[::1]:7000/2?x".toList := by
  have hurl : (withPassword? { addr := "me:old@[::1]:7000/2?x" } none).url? = some remote := by
    decide +kernel
  obtain ⟨url', hwritten, rfl, hread, -, -⟩ :=
    (password_redirects_nothing _ remote hurl).2 "@evil:1/9?#é" (by decide)
  exact ⟨_, _, rfl, hurl, hwritten, hread, rfl, rfl, by decide +kernel⟩

end Redis.Settings

end Leasehold
