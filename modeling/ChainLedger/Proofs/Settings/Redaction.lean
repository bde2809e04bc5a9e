import ChainLedger.Proofs.Settings.Addresses

/-!
# What a masked address tells

Masking gives all texts of a login that differ in the password the same text, and leaves any other
text as it is. It finds the password where the reader of addresses finds it, since both make the
same three cuts. A masked text is the text of a login again, whose password is the mask.
-/

set_option autoImplicit false

namespace ChainLedger.Settings

open DatabaseUrl (schemeMark parse?)

def WrittenLogin.withPassword (login : WrittenLogin) (password : String) : WrittenLogin :=
  { login with password }

def WrittenAddress.withPassword (written : WrittenAddress) (password : String) : WrittenAddress :=
  { written with password }

theorem redact_text (login : WrittenLogin) :
    redact login.text = (login.withPassword "***").text := by
  simp only [redact, Option.bind_eq_bind, Option.bind_some, WrittenLogin.cutFirst?_text,
    WrittenLogin.cutLast?_behindScheme, WrittenLogin.cutFirst?_credentials, Option.pure_def]
  rw [← String.toList_inj, String.toList_ofList, WrittenLogin.toList_text]
  simp [WrittenLogin.behindScheme, WrittenLogin.credentials, WrittenLogin.withPassword]

theorem redact_eq_self {url : String} (absent : ∀ login : WrittenLogin, login.text ≠ url) :
    redact url = url := by
  simp only [redact]
  split
  next characters masked =>
    simp only [Option.bind_eq_bind, Option.bind_eq_some_iff] at masked
    obtain ⟨⟨scheme, rest⟩, schemeCut, ⟨credentials, place⟩, placeCut, ⟨user, password⟩, userCut,
      -⟩ := masked
    obtain ⟨login, textEq, -⟩ := WrittenLogin.exists_of_cuts schemeCut placeCut userCut
    exact absurd textEq (absent login)
  next => rfl

theorem redact_redact (url : String) : redact (redact url) = redact url := by
  by_cases written : ∃ login : WrittenLogin, login.text = url
  · obtain ⟨login, rfl⟩ := written
    rw [redact_text, redact_text]
    rfl
  · have same := redact_eq_self (not_exists.mp written)
    rw [same, same]

theorem redact_append {scheme user place : String}
    (schemeUnmarked : ¬ schemeMark <:+: scheme.toList)
    (userUnmarked : ':' ∉ user.toList) (placeUnmarked : '@' ∉ place.toList) (password : String) :
    redact (scheme ++ "://" ++ user ++ ":" ++ password ++ "@" ++ place)
      = scheme ++ "://" ++ user ++ ":***@" ++ place := by
  have maskEq : ":***@" = ":" ++ "***" ++ "@" := by decide
  rw [maskEq, ← String.append_assoc, ← String.append_assoc]
  exact redact_text ⟨scheme, user, password, place, schemeUnmarked, userUnmarked, placeUnmarked⟩

/-- The password does not show: texts that differ in it only are masked alike. In an address
everything but the password is kept, and masking once more changes nothing. -/
theorem masked_text_hides_password :
    (∀ scheme user place : String, ¬ schemeMark <:+: scheme.toList → ':' ∉ user.toList →
      '@' ∉ place.toList → ∀ password other : String,
        redact (scheme ++ "://" ++ user ++ ":" ++ password ++ "@" ++ place)
            = redact (scheme ++ "://" ++ user ++ ":" ++ other ++ "@" ++ place) ∧
          redact (scheme ++ "://" ++ user ++ ":" ++ password ++ "@" ++ place)
            = scheme ++ "://" ++ user ++ ":***@" ++ place) ∧
    (∀ (url : String) (address : DatabaseUrl), parse? url = some address →
      ∃ written : WrittenAddress, written.text = url ∧ written.address = address ∧
        redact url = (written.withPassword "***").text) ∧
    ∀ url : String, redact (redact url) = redact url := by
  refine ⟨?_, ?_, redact_redact⟩
  · intro scheme user place schemeUnmarked userUnmarked placeUnmarked password other
    have masks := redact_append schemeUnmarked userUnmarked placeUnmarked
    exact ⟨(masks password).trans (masks other).symm, masks password⟩
  · intro url address accepted
    obtain ⟨written, rfl, rfl⟩ := WrittenAddress.exists_of_parse? accepted
    refine ⟨written, rfl, rfl, ?_⟩
    rw [← written.text_login, redact_text, ← WrittenAddress.text_login]
    rfl

theorem masked_text_hides_password_of_crowded :
    redact ("postgres" ++ "://" ++ "me@home" ++ ":" ++ "a:b/c@d://e" ++ "@" ++ "db.local:5433/shop")
        = redact ("postgres" ++ "://" ++ "me@home" ++ ":" ++ "" ++ "@" ++ "db.local:5433/shop") ∧
      ∃ written : WrittenAddress, written.text = crowdedUrl ∧ written.address = crowdedAddress ∧
        redact crowdedUrl = (written.withPassword "***").text := by
  obtain ⟨alike, keeps, -⟩ := masked_text_hides_password
  exact ⟨(alike "postgres" "me@home" "db.local:5433/shop" (by decide) (by decide) (by decide)
    "a:b/c@d://e" "").1, keeps crowdedUrl crowdedAddress (by decide +kernel)⟩

end ChainLedger.Settings
