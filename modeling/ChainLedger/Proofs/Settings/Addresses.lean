import ChainLedger.Proofs.Text.Cutting
import ChainLedger.Settings.Provision

/-!
# How addresses are written

An address is read from exactly one text for each way to fill in its parts, so what is read is what
was written: the password is all that stands between the first colon of the credentials and the last
at sign. The address of the maintenance database is such a text again, with the same login.
-/

set_option autoImplicit false

namespace ChainLedger.Settings

open DatabaseUrl (schemeMark parse?)

/-! ## Logins -/

/-- The parts of a text that gives a user and a password, and then a place to use them at. The
password is any text. -/
@[ext]
structure WrittenLogin where
  scheme : String
  user : String
  password : String
  place : String
  scheme_unmarked : ¬ schemeMark <:+: scheme.toList
  user_unmarked : ':' ∉ user.toList
  place_unmarked : '@' ∉ place.toList

namespace WrittenLogin

def text (login : WrittenLogin) : String :=
  login.scheme ++ "://" ++ login.user ++ ":" ++ login.password ++ "@" ++ login.place

def credentials (login : WrittenLogin) : List Char :=
  login.user.toList ++ ':' :: login.password.toList

def behindScheme (login : WrittenLogin) : List Char :=
  login.credentials ++ '@' :: login.place.toList

theorem toList_text (login : WrittenLogin) :
    login.text.toList = login.scheme.toList ++ schemeMark ++ login.behindScheme := by
  simp [text, behindScheme, credentials, schemeMark]

theorem cutFirst?_text (login : WrittenLogin) :
    Text.cutFirst? schemeMark login.text.toList
      = some (login.scheme.toList, login.behindScheme) :=
  (Text.cutFirst?_eq_some_iff (by decide)).mpr ⟨login.toList_text, login.scheme_unmarked⟩

theorem cutLast?_behindScheme (login : WrittenLogin) :
    Text.cutLast? '@' login.behindScheme = some (login.credentials, login.place.toList) :=
  Text.cutLast?_eq_some_iff.mpr ⟨rfl, login.place_unmarked⟩

theorem cutFirst?_credentials (login : WrittenLogin) :
    Text.cutFirst? [':'] login.credentials
      = some (login.user.toList, login.password.toList) :=
  Text.cutFirst?_singleton_eq_some_iff.mpr ⟨rfl, login.user_unmarked⟩

theorem exists_of_cuts {url : String} {scheme rest credentials place user password : List Char}
    (schemeCut : Text.cutFirst? schemeMark url.toList = some (scheme, rest))
    (placeCut : Text.cutLast? '@' rest = some (credentials, place))
    (userCut : Text.cutFirst? [':'] credentials = some (user, password)) :
    ∃ login : WrittenLogin, login.text = url ∧ login.user.toList = user ∧
      login.password.toList = password ∧ login.place.toList = place := by
  obtain ⟨urlEq, schemeUnmarked⟩ := (Text.cutFirst?_eq_some_iff (by decide)).mp schemeCut
  obtain ⟨rfl, placeUnmarked⟩ := Text.cutLast?_eq_some_iff.mp placeCut
  obtain ⟨rfl, userUnmarked⟩ := Text.cutFirst?_singleton_eq_some_iff.mp userCut
  refine
    ⟨{ scheme := String.ofList scheme
       user := String.ofList user
       password := String.ofList password
       place := String.ofList place
       scheme_unmarked := by rwa [String.toList_ofList]
       user_unmarked := by rwa [String.toList_ofList]
       place_unmarked := by rwa [String.toList_ofList] },
      ?_, String.toList_ofList, String.toList_ofList, String.toList_ofList⟩
  rw [← String.toList_inj, toList_text, urlEq]
  simp [behindScheme, credentials, schemeMark]

theorem text_injective : Function.Injective text := by
  intro first second sameText
  have schemeCut := first.cutFirst?_text
  rw [sameText, second.cutFirst?_text] at schemeCut
  obtain ⟨sameScheme, sameRest⟩ := Prod.mk.inj (Option.some.inj schemeCut)
  have placeCut := first.cutLast?_behindScheme
  rw [← sameRest, second.cutLast?_behindScheme] at placeCut
  obtain ⟨sameCredentials, samePlace⟩ := Prod.mk.inj (Option.some.inj placeCut)
  have userCut := first.cutFirst?_credentials
  rw [← sameCredentials, second.cutFirst?_credentials] at userCut
  obtain ⟨sameUser, samePassword⟩ := Prod.mk.inj (Option.some.inj userCut)
  exact WrittenLogin.ext (String.toList_inj.mp sameScheme.symm) (String.toList_inj.mp sameUser.symm)
    (String.toList_inj.mp samePassword.symm) (String.toList_inj.mp samePlace.symm)

end WrittenLogin

/-! ## Addresses -/

/-- The parts of an address: a login whose place names a host, a port and a database, with an
optional query behind the name. -/
@[ext]
structure WrittenAddress where
  scheme : String
  user : String
  password : String
  host : String
  port : String
  name : String
  tail : String
  scheme_unmarked : ¬ schemeMark <:+: scheme.toList
  user_unmarked : ':' ∉ user.toList
  host_unmarked : ':' ∉ host.toList ∧ '/' ∉ host.toList ∧ '@' ∉ host.toList
  port_unmarked : '/' ∉ port.toList ∧ '@' ∉ port.toList
  name_unmarked : name ≠ "" ∧ '?' ∉ name.toList ∧ '@' ∉ name.toList
  tail_unmarked : (tail = "" ∨ tail.toList.head? = some '?') ∧ '@' ∉ tail.toList

namespace WrittenAddress

def place (written : WrittenAddress) : String :=
  written.host ++ ":" ++ written.port ++ "/" ++ written.name ++ written.tail

def text (written : WrittenAddress) : String :=
  written.scheme ++ "://" ++ written.user ++ ":" ++ written.password ++ "@" ++ written.host ++ ":"
    ++ written.port ++ "/" ++ written.name ++ written.tail

def address (written : WrittenAddress) : DatabaseUrl :=
  { url := written.text
    host := written.host
    port := written.port
    name := written.name
    user := written.user
    password := written.password }

theorem place_unmarked (written : WrittenAddress) : '@' ∉ written.place.toList := by
  simp [place, written.host_unmarked, written.port_unmarked, written.name_unmarked,
    written.tail_unmarked]

def login (written : WrittenAddress) : WrittenLogin :=
  { scheme := written.scheme
    user := written.user
    password := written.password
    place := written.place
    scheme_unmarked := written.scheme_unmarked
    user_unmarked := written.user_unmarked
    place_unmarked := written.place_unmarked }

@[simp]
theorem text_login (written : WrittenAddress) : written.login.text = written.text := by
  simp [WrittenLogin.text, login, place, text, String.append_assoc]

theorem cutFirst?_place (written : WrittenAddress) :
    Text.cutFirst? ['/'] written.place.toList
      = some (written.host.toList ++ ':' :: written.port.toList,
          written.name.toList ++ written.tail.toList) := by
  refine Text.cutFirst?_singleton_eq_some_iff.mpr ⟨by simp [place], ?_⟩
  simp [written.host_unmarked, written.port_unmarked]

theorem cutFirst?_host (written : WrittenAddress) :
    Text.cutFirst? [':'] (written.host.toList ++ ':' :: written.port.toList)
      = some (written.host.toList, written.port.toList) :=
  Text.cutFirst?_singleton_eq_some_iff.mpr ⟨rfl, written.host_unmarked.1⟩

theorem takeWhile_path (written : WrittenAddress) :
    (written.name.toList ++ written.tail.toList).takeWhile (· ≠ '?') = written.name.toList := by
  obtain ⟨-, nameUnmarked, -⟩ := written.name_unmarked
  obtain ⟨tailMarked, -⟩ := written.tail_unmarked
  refine Text.takeWhile_ne_eq_iff.mpr ⟨written.tail.toList, rfl, nameUnmarked, ?_⟩
  exact tailMarked.imp_left fun empty => by rw [empty]; rfl

theorem parse?_text (written : WrittenAddress) : parse? written.text = some written.address := by
  obtain ⟨filled, -⟩ := written.name_unmarked
  have nameEmpty : written.name.toList.isEmpty = false := by simpa using filled
  have placeEq : written.login.place = written.place := rfl
  rw [← text_login, parse?]
  simp only [Option.bind_eq_bind, Option.bind_some, WrittenLogin.cutFirst?_text,
    WrittenLogin.cutLast?_behindScheme, WrittenLogin.cutFirst?_credentials, placeEq,
    cutFirst?_place, cutFirst?_host, takeWhile_path, nameEmpty, String.ofList_toList]
  rw [text_login]
  rfl

theorem exists_of_cuts {login : WrittenLogin} {front path host port name : List Char}
    (pathCut : Text.cutFirst? ['/'] login.place.toList = some (front, path))
    (hostCut : Text.cutFirst? [':'] front = some (host, port))
    (nameCut : path.takeWhile (· ≠ '?') = name) (filled : name ≠ []) :
    ∃ written : WrittenAddress, written.login = login ∧ written.host.toList = host ∧
      written.port.toList = port ∧ written.name.toList = name := by
  obtain ⟨placeEq, frontUnmarked⟩ := Text.cutFirst?_singleton_eq_some_iff.mp pathCut
  obtain ⟨rfl, hostUnmarked⟩ := Text.cutFirst?_singleton_eq_some_iff.mp hostCut
  obtain ⟨tail, rfl, nameUnmarked, tailMarked⟩ := Text.takeWhile_ne_eq_iff.mp nameCut
  have unmarked := login.place_unmarked
  rw [placeEq] at unmarked
  simp only [List.mem_append, List.mem_cons, not_or] at unmarked frontUnmarked
  obtain ⟨⟨hostNoAt, -, portNoAt⟩, -, nameNoAt, tailNoAt⟩ := unmarked
  obtain ⟨hostNoSlash, -, portNoSlash⟩ := frontUnmarked
  refine
    ⟨{ scheme := login.scheme
       user := login.user
       password := login.password
       host := String.ofList host
       port := String.ofList port
       name := String.ofList name
       tail := String.ofList tail
       scheme_unmarked := login.scheme_unmarked
       user_unmarked := login.user_unmarked
       host_unmarked := by simpa using ⟨hostUnmarked, hostNoSlash, hostNoAt⟩
       port_unmarked := by simpa using ⟨portNoSlash, portNoAt⟩
       name_unmarked := by simpa using ⟨filled, nameUnmarked, nameNoAt⟩
       tail_unmarked := by simpa using ⟨tailMarked, tailNoAt⟩ },
      ?_, String.toList_ofList, String.toList_ofList, String.toList_ofList⟩
  refine WrittenLogin.ext rfl rfl rfl ?_
  rw [← String.toList_inj, placeEq]
  simp [WrittenAddress.login, place]

/-- What is read was written in one of the ways. -/
theorem exists_of_parse? {url : String} {address : DatabaseUrl}
    (accepted : parse? url = some address) :
    ∃ written : WrittenAddress, written.text = url ∧ written.address = address := by
  simp only [parse?, Option.bind_eq_bind, Option.bind_eq_some_iff] at accepted
  obtain ⟨⟨scheme, rest⟩, schemeCut, ⟨credentials, location⟩, placeCut, ⟨user, password⟩, userCut,
    ⟨front, path⟩, pathCut, ⟨host, port⟩, hostCut, accepted⟩ := accepted
  obtain ⟨login, rfl, rfl, rfl, rfl⟩ := WrittenLogin.exists_of_cuts schemeCut placeCut userCut
  split at accepted
  next => cases accepted
  next filled =>
    obtain ⟨written, rfl, rfl, rfl, nameEq⟩ :=
      exists_of_cuts pathCut hostCut rfl (mt List.isEmpty_iff.mpr filled)
    refine ⟨written, written.text_login.symm, ?_⟩
    rw [← Option.some.inj accepted, ← nameEq, text_login]
    simp only [String.ofList_toList]
    rfl

theorem text_injective : Function.Injective text := by
  intro first second sameText
  have sameLogin : first.login = second.login :=
    WrittenLogin.text_injective (by rw [text_login, text_login, sameText])
  obtain ⟨sameScheme, sameUser, samePassword, samePlace⟩ := WrittenLogin.mk.inj sameLogin
  have sameAddress : first.address = second.address :=
    Option.some.inj (by rw [← parse?_text, ← parse?_text, sameText])
  obtain ⟨-, sameHost, samePort, sameName, -, -⟩ := DatabaseUrl.mk.inj sameAddress
  refine WrittenAddress.ext sameScheme sameUser samePassword sameHost samePort sameName ?_
  rw [place, place, sameHost, samePort, sameName] at samePlace
  exact (String.append_right_inj _).mp samePlace

def forMaintenance (written : WrittenAddress) : WrittenAddress :=
  { written with
    scheme := "postgresql"
    name := "postgres"
    tail := ""
    scheme_unmarked := by decide
    name_unmarked := by decide
    tail_unmarked := by decide }

theorem text_forMaintenance (written : WrittenAddress) :
    written.forMaintenance.text = written.address.maintenance := by
  have schemeEq : "postgresql" ++ "://" = "postgresql://" := by decide
  have nameEq : "/postgres" = "/" ++ "postgres" ++ "" := by decide
  unfold text DatabaseUrl.maintenance
  rw [nameEq, ← schemeEq]
  simp only [String.append_assoc, forMaintenance, address]

end WrittenAddress

/-- The address of the maintenance database is accepted, and keeps the login and the server. -/
theorem parse?_maintenance {url : String} {address : DatabaseUrl}
    (accepted : parse? url = some address) :
    parse? address.maintenance
      = some { address with url := address.maintenance, name := "postgres" } := by
  obtain ⟨written, -, rfl⟩ := WrittenAddress.exists_of_parse? accepted
  rw [← written.text_forMaintenance, WrittenAddress.parse?_text]
  rfl

/-! ## Creating a database -/

section Creating

variable {environment : Environment} {address : DatabaseUrl} {url : String}

theorem readAddress_of_parse? (given : environment.get? "DATABASE_URL" = some url)
    (accepted : parse? url = some address) : readAddress environment = .ok address := by
  simp only [readAddress, given, accepted]

/-- The client program is only ever run on the maintenance database of the address. -/
theorem head?_of_mem_calls_create (read : readAddress environment = .ok address)
    (name : Option String) (client : Option Client) :
    ∀ call ∈ (create environment name client).calls, call.head? = some address.maintenance := by
  simp only [create, read]
  split
  next => simp
  next =>
    split
    next => simp
    next client =>
      split
      next => simp
      next => simp

theorem calls_create_ne_nil (read : readAddress environment = .ok address) (name : Option String)
    (client : Client)
    (passable : arePassable
      [address.maintenance, "-t", "-c", existenceQuery (name.getD address.name)]) :
    (create environment name (some client)).calls ≠ [] := by
  simp only [create, read, passable, Bool.not_true, Bool.false_eq_true, if_false]
  split
  next => exact List.cons_ne_nil _ _
  next => exact List.cons_ne_nil _ _

end Creating

/-- Exactly the texts made of the parts of an address are accepted, each of them in one way, and
what is read are those parts. A database is created on the address that is made of the same parts
and the name of the maintenance database. -/
theorem addresses_read_as_written :
    (∀ (url : String) (address : DatabaseUrl),
      parse? url = some address ↔
        ∃ written : WrittenAddress, written.text = url ∧ written.address = address) ∧
    Function.Injective WrittenAddress.text ∧
    ∀ (url : String) (address : DatabaseUrl), parse? url = some address →
      parse? address.maintenance
          = some { address with url := address.maintenance, name := "postgres" } ∧
        ∀ (environment : Environment) (name : Option String),
          environment.get? "DATABASE_URL" = some url →
            (∀ client, ∀ call ∈ (create environment name client).calls,
              call.head? = some address.maintenance) ∧
            (arePassable
                [address.maintenance, "-t", "-c", existenceQuery (name.getD address.name)] →
              ∀ client, (create environment name (some client)).calls ≠ []) := by
  refine ⟨fun url address => ⟨WrittenAddress.exists_of_parse?, ?_⟩,
    WrittenAddress.text_injective, fun url address accepted => ⟨parse?_maintenance accepted, ?_⟩⟩
  · rintro ⟨written, rfl, rfl⟩
    exact written.parse?_text
  · intro environment name given
    have read := readAddress_of_parse? given accepted
    exact ⟨head?_of_mem_calls_create read name,
      fun passable client => calls_create_ne_nil read name client passable⟩

/-- An address whose user, password, port and name hold separators themselves. -/
def crowdedUrl : String := "postgres://me@home:a:b/c@d://e@db.local:5433:1/shop/x?ssl=on"

def crowdedAddress : DatabaseUrl :=
  { url := crowdedUrl
    host := "db.local"
    port := "5433:1"
    name := "shop/x"
    user := "me@home"
    password := "a:b/c@d://e" }

def crowdedEnvironment : Environment := [("DATABASE_URL", crowdedUrl)]

theorem addresses_read_as_written_of_crowded :
    parse? crowdedUrl = some crowdedAddress ∧
      parse? crowdedAddress.maintenance
        = some { crowdedAddress with url := crowdedAddress.maintenance, name := "postgres" } ∧
      crowdedEnvironment.get? "DATABASE_URL" = some crowdedUrl ∧
      (∀ client, ∀ call ∈ (create crowdedEnvironment none client).calls,
        call.head? = some crowdedAddress.maintenance) ∧
      ∀ client, (create crowdedEnvironment none (some client)).calls ≠ [] := by
  have accepted : parse? crowdedUrl = some crowdedAddress := by decide +kernel
  have given : crowdedEnvironment.get? "DATABASE_URL" = some crowdedUrl := by decide +kernel
  obtain ⟨readAgain, creates⟩ := addresses_read_as_written.2.2 crowdedUrl crowdedAddress accepted
  obtain ⟨called, runs⟩ := creates crowdedEnvironment none given
  exact ⟨accepted, readAgain, given, called, runs (by decide +kernel)⟩

end ChainLedger.Settings
