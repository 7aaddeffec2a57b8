import Leasehold.Redis.Settings
import Leasehold.Proofs.Net.Url

/-!
# Passwords in URLs

A password takes its place in the URL of every address that can be read.  The URL is
read again as it was written, so the password that a client finds there is the one that
was put there, encoded.

Decoding it yields what decoding the password itself would yield, for a percent sign is
not encoded.  A password comes back as it was exactly if it has no percent sign with two
hexadecimal digits behind it.
-/

namespace Leasehold.Redis.Settings

open Percent

/-- The settings with a password, or with none. -/
def withPassword? (s : Settings) (password? : Option String) : Settings := { s with password? }

theorem clean_of_url? {s : Settings} {url : Url} (h : s.url? = some url) : url.Clean := by
  obtain ⟨url₀, hread, rfl⟩ := Option.map_eq_some_iff.mp h
  have hclean := Url.clean_of_ofText? hread
  split
  · split
    · exact hclean
    · exact hclean.withPassword _
  · exact hclean

theorem url?_withPassword? {s : Settings} {url : Url} (h : (s.withPassword? none).url? = some url)
    {p : String} (hp : p ≠ "") :
    (s.withPassword? (some p)).url? = some (url.withPassword p.toList) := by
  obtain ⟨url₀, hread, rfl⟩ := Option.map_eq_some_iff.mp h
  have hempty : p.isEmpty = false := by simpa using hp
  exact Option.map_eq_some_iff.mpr ⟨url₀, hread, by simp [withPassword?, hempty]⟩

/-- A password that is put into a URL is found there, and comes back as it was exactly if
no percent sign in it has two hexadecimal digits behind it. -/
theorem password_comes_back_iff (s : Settings) (url : Url) (p : String)
    (hurl : (s.withPassword? none).url? = some url) (hp : p ≠ "") :
    ∃ url', (s.withPassword? (some p)).url? = some url' ∧ Url.ofText? url'.text = some url' ∧
      decode? url'.password = decode? p.toList ∧
      (decode? url'.password = some p.toList ↔ hasEscape p.toList = false) := by
  have hwritten := url?_withPassword? hurl hp
  have hdecode : decode? (url.withPassword p.toList).password = decode? p.toList :=
    spares_inUser.decode?_encode p.toList
  refine ⟨_, hwritten, Url.ofText?_text (clean_of_url? hwritten), hdecode, ?_⟩
  rw [hdecode]
  exact decode?_eq_self_iff p.toList

/-- The first password comes back, the second one does not. -/
theorem password_comes_back_iff_percent :
    ∃ s url, (withPassword? s none).url? = some url ∧
      (∃ url', (s.withPassword? (some "p@ss/w#rd:x%")).url? = some url' ∧
        decode? url'.password = some "p@ss/w#rd:x%".toList) ∧
      ∃ url', (s.withPassword? (some "%41")).url? = some url' ∧
        decode? url'.password ≠ some "%41".toList := by
  obtain ⟨url, hurl⟩ : ∃ url, (withPassword? {} none).url? = some url :=
    Option.isSome_iff_exists.mp (by decide +kernel)
  obtain ⟨url₁, hwritten₁, -, -, hiff₁⟩ :=
    password_comes_back_iff {} url "p@ss/w#rd:x%" hurl (by decide)
  obtain ⟨url₂, hwritten₂, -, -, hiff₂⟩ := password_comes_back_iff {} url "%41" hurl (by decide)
  refine ⟨{}, url, hurl, ⟨url₁, hwritten₁, hiff₁.mpr (by decide +kernel)⟩, url₂, hwritten₂,
    fun hback => ?_⟩
  have hescape := hiff₂.mp hback
  revert hescape
  decide +kernel

end Leasehold.Redis.Settings
