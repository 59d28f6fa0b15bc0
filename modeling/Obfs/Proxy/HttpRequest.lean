import Mathlib.Data.Bool.AllAny
import Obfs.Proxy.Base64
import Obfs.Proxy.HttpResponse

/-! The request of tunnel_http_connect as an HTTP/1.1 proxy reads it. The host and
the credentials are spliced into the text unchecked, so what the proxy reads is
what was asked only for some of them. -/
namespace Obfs.Proxy
open Dialogue Framing

def isOws (b : UInt8) : Bool := b = 32 || b = 9

def trimOws (value : Bytes) : Bytes :=
  ((value.dropWhile isOws).reverse.dropWhile isOws).reverse

def lower (b : UInt8) : UInt8 := if 65 ≤ b ∧ b ≤ 90 then b + 32 else b

/-- The target of a line "CONNECT target HTTP/1.1". -/
def connectTarget (line : Bytes) : Option Bytes :=
  match Text.splitFirst 32 line with
  | none => none
  | some (method, after) =>
    match Text.splitFirst 32 after with
    | none => none
    | some (target, version) =>
      if method = utf8 "CONNECT" ∧ version = utf8 "HTTP/1.1" then some target else none

def headerField (line : Bytes) : Option (Bytes × Bytes) :=
  (Text.splitFirst 58 line).map fun (name, value) => (name, trimOws value)

/-- User and password of Basic credentials, around the first colon. -/
def basicCredentials (value : Bytes) : Option (Bytes × Bytes) :=
  match Text.splitFirst 32 value with
  | none => none
  | some (scheme, token) =>
    if scheme.map lower = utf8 "basic" then
      (Base64.decode Base64.standard (token.map fun b => Char.ofNat b.toNat)).bind
        (Text.splitFirst 58)
    else none

/- The credentials of a request, if it has any; none if they are malformed. -/
def proxyCredentials (fields : List (Bytes × Bytes)) : Option (Option (Bytes × Bytes)) :=
  match fields.find? fun f => f.1.map lower = utf8 "proxy-authorization" with
  | none => some none
  | some f => (basicCredentials f.2).map some

/-- What a proxy finds in a request: where to connect, the names of the header
fields, the credentials, and the bytes behind the head. -/
structure ConnectRequest where
  dest : Dest
  names : List Bytes
  credentials : Option (Bytes × Bytes)
  rest : Bytes
  deriving DecidableEq

def parseConnect (bytes : Bytes) : Option ConnectRequest :=
  match Text.readHead [] bytes with
  | some (first :: lines, rest) =>
    match (connectTarget first).bind targetDest, lines.mapM headerField with
    | some dest, some fields =>
      (proxyCredentials fields).map fun credentials =>
        ⟨dest, fields.map Prod.fst, credentials, rest⟩
    | _, _ => none
  | _ => none

def asked (host : String) (port : UInt16) (auth : Option ProxyAuth) : ConnectRequest where
  dest := ⟨.name (utf8 host), port⟩
  names := utf8 "Host" :: auth.toList.map fun _ => utf8 "Proxy-Authorization"
  credentials := auth.map fun creds => (utf8 creds.user, utf8 creds.pass)
  rest := []

/-- Nothing in the host ends the target or the line, and no colon ends the user
too early. -/
structure Plain (host : String) (auth : Option ProxyAuth) : Prop where
  host : ∀ c ∈ host.toList, c ≠ ' ' ∧ c ≠ '\r' ∧ c ≠ '\n'
  user : ∀ creds, auth = some creds → ':' ∉ creds.user.toList

section
variable {host : String} {port : UInt16} {auth : Option ProxyAuth}

theorem mem_utf8_iff {s : String} {c : Char} (hc : c.toNat < 128) :
    UInt8.ofNat c.toNat ∈ utf8 s ↔ c ∈ s.toList := by
  have hb : (UInt8.ofNat c.toNat).toNat = c.toNat := by
    rw [UInt8.toNat_ofNat']
    omega
  constructor
  · intro h
    obtain ⟨d, hd, he⟩ := mem_utf8 h (by omega)
    rwa [eq_of_toNat (he.trans hb)] at hd
  · intro h
    exact List.mem_flatMap.mpr ⟨c, h, by simp [Text.utf8EncodeChar_ascii hc]⟩

theorem connectTarget_hostPort (hsp : 32 ∉ utf8 host) :
    connectTarget (utf8 ("CONNECT " ++ hostPort host port ++ " HTTP/1.1")) =
      some (utf8 (hostPort host port)) := by
  rw [connectTarget, utf8_connectLine, Text.splitFirst_append (by decide)]
  simp only
  rw [Text.splitFirst_append (space_notMem_hostPort hsp)]
  simp

theorem headerField_append {name : Bytes} (h : 58 ∉ name) (value : Bytes) :
    headerField (name ++ 58 :: value) = some (name, trimOws value) := by
  rw [headerField, Text.splitFirst_append h]
  rfl

theorem headerField_host (text : String) :
    headerField (utf8 ("Host: " ++ text)) = some (utf8 "Host", trimOws (32 :: utf8 text)) := by
  have h : utf8 "Host: " = utf8 "Host" ++ [58, 32] := by decide
  rw [utf8_append, h, List.append_assoc]
  exact headerField_append (by decide) _

theorem base64Encode_ascii {x : Bytes} {c : Char} (h : c ∈ (base64Encode x).toList) :
    c ∈ '=' :: base64Chars ∧ c.toNat < 128 := by
  have hall : ∀ c ∈ '=' :: base64Chars, c.toNat < 128 :=
    List.all_iff_forall_prop.mp (by decide +kernel)
  rw [base64Encode, String.toList_ofList] at h
  exact ⟨mem_encodeChunks h, hall c (mem_encodeChunks h)⟩

theorem base64Encode_last {x : Bytes} (hx : x ≠ []) :
    ∃ front b, utf8 (base64Encode x) = front ++ [b] ∧ isOws b = false := by
  have hall : ∀ c ∈ '=' :: base64Chars, isOws (UInt8.ofNat c.toNat) = false :=
    List.all_iff_forall_prop.mp (by decide +kernel)
  rw [utf8_ascii fun c hc => (base64Encode_ascii hc).2]
  obtain h | ⟨front, c, h⟩ := List.eq_nil_or_concat' (base64Encode x).toList
  · have hlen := Base64.length_encode Base64.standard x
    rw [← encodeChunks_standard, ← String.toList_ofList (l := encodeChunks x)] at hlen
    change (base64Encode x).toList.length = _ at hlen
    have hpos := List.length_pos_iff.mpr hx
    rw [h, List.length_nil] at hlen
    omega
  · refine ⟨front.map fun c => UInt8.ofNat c.toNat, UInt8.ofNat c.toNat, by simp [h], ?_⟩
    have hm : c ∈ (base64Encode x).toList := by
      rw [h]
      exact List.mem_append_right _ List.mem_cons_self
    exact hall c (base64Encode_ascii hm).1

theorem trimOws_space {a b : UInt8} (mid : Bytes) (ha : isOws a = false) (hb : isOws b = false) :
    trimOws (32 :: a :: (mid ++ [b])) = a :: (mid ++ [b]) := by
  have hsp : isOws 32 = true := rfl
  simp [trimOws, hsp, ha, hb]

theorem utf8_userPass (creds : ProxyAuth) :
    utf8 (creds.user ++ ":" ++ creds.pass) = utf8 creds.user ++ 58 :: utf8 creds.pass := by
  have hcolon : utf8 ":" = [58] := by decide
  rw [utf8_append, utf8_append, hcolon, List.append_assoc]
  rfl

def basicValue (creds : ProxyAuth) : Bytes :=
  utf8 "Basic" ++ 32 :: utf8 (base64Encode (utf8 (creds.user ++ ":" ++ creds.pass)))

theorem trimOws_basicValue (creds : ProxyAuth) :
    trimOws (32 :: basicValue creds) = basicValue creds := by
  have hne : utf8 (creds.user ++ ":" ++ creds.pass) ≠ [] := by
    rw [utf8_userPass]
    simp
  have hbasic : utf8 "Basic" = [66, 97, 115, 105, 99] := by decide
  have hfirst : isOws 66 = false := rfl
  obtain ⟨front, b, hlast, hb⟩ := base64Encode_last hne
  rw [basicValue, hlast, hbasic]
  exact trimOws_space ([97, 115, 105, 99, 32] ++ front) hfirst hb

theorem headerField_authorization (creds : ProxyAuth) :
    headerField (utf8 (authorization creds)) =
      some (utf8 "Proxy-Authorization", basicValue creds) := by
  have h : utf8 "Proxy-Authorization: Basic " =
      utf8 "Proxy-Authorization" ++ 58 :: 32 :: (utf8 "Basic" ++ [32]) := by decide +kernel
  have hvalue : utf8 (authorization creds) =
      utf8 "Proxy-Authorization" ++ 58 :: 32 :: basicValue creds := by
    refine (utf8_append _ _).trans ?_
    rw [h, basicValue]
    simp only [List.append_assoc, List.cons_append, List.nil_append]
  have hname : (58 : UInt8) ∉ utf8 "Proxy-Authorization" := by decide +kernel
  rw [hvalue, headerField_append hname, trimOws_basicValue]

theorem basicCredentials_userPass {creds : ProxyAuth} (hu : ':' ∉ creds.user.toList) :
    basicCredentials (basicValue creds) = some (utf8 creds.user, utf8 creds.pass) := by
  have hcolon : (58 : UInt8) ∉ utf8 creds.user := (mem_utf8_iff (c := ':') (by decide)).not.mpr hu
  rw [basicCredentials, basicValue, Text.splitFirst_append (by decide)]
  simp only
  rw [if_pos (by decide), chars_utf8 fun c hc => (base64Encode_ascii hc).2, decode_base64Encode,
    Option.bind_some, utf8_userPass]
  exact Text.splitFirst_append hcolon _

theorem proxyCredentials_host (value : Bytes) :
    proxyCredentials [(utf8 "Host", value)] = some none := by
  have hhost : ¬ (utf8 "Host").map lower = utf8 "proxy-authorization" := by decide +kernel
  simp [proxyCredentials, hhost]

theorem proxyCredentials_authorization (value token : Bytes) :
    proxyCredentials [(utf8 "Host", value), (utf8 "Proxy-Authorization", token)] =
      (basicCredentials token).map some := by
  have hhost : ¬ (utf8 "Host").map lower = utf8 "proxy-authorization" := by decide +kernel
  have hname : (utf8 "Proxy-Authorization").map lower = utf8 "proxy-authorization" := by
    decide +kernel
  simp [proxyCredentials, hhost, hname]

theorem parseConnect_connectText (h : Plain host auth) :
    parseConnect (utf8 (connectText host port auth)) = some (asked host port auth) := by
  have hone : OneLine host := by
    intro c hc
    obtain ⟨-, hr, hn⟩ := h.host c hc
    exact ⟨fun he => hr (eq_of_toNat he), fun he => hn (eq_of_toNat he)⟩
  have hsp : (32 : UInt8) ∉ utf8 host :=
    (mem_utf8_iff (c := ' ') (by decide)).not.mpr fun hm => (h.host ' ' hm).1 rfl
  have hread : Text.readHead [] (utf8 (connectText host port auth)) =
      some (requestLines host port auth, []) := by
    rw [connectText_lines, ← List.append_nil (Text.head _)]
    exact Text.readHead_head (isLine_requestLines hone) []
  rw [parseConnect, hread]
  simp only [requestLines, List.cons_append, List.nil_append]
  rw [connectTarget_hostPort hsp, Option.bind_some, targetDest_hostPort]
  cases auth with
  | none =>
    simp only [Option.toList_none, List.map_nil, List.mapM_cons, List.mapM_nil,
      headerField_host]
    exact congrArg (Option.map _) (proxyCredentials_host _)
  | some creds =>
    simp only [Option.toList_some, List.map_cons, List.map_nil, List.mapM_cons, List.mapM_nil,
      headerField_host, headerField_authorization]
    have hcreds := basicCredentials_userPass (h.user creds rfl)
    exact congrArg (Option.map _)
      ((proxyCredentials_authorization _ _).trans (congrArg (Option.map some) hcreds))

theorem host_of_target {line text : Bytes} {port : UInt16}
    (h : (connectTarget line).bind targetDest = some ⟨.name text, port⟩) :
    32 ∉ text ∧ ∀ b ∈ text, b ∈ line := by
  obtain ⟨target, ht, hd⟩ := Option.bind_eq_some_iff.mp h
  have htarget : 32 ∉ target ∧ ∀ b ∈ target, b ∈ line := by
    unfold connectTarget at ht
    split at ht
    · cases ht
    · rename_i method after hs
      split at ht
      · cases ht
      · rename_i target' version hs'
        obtain ⟨rfl, -⟩ := Text.of_splitFirst hs
        obtain ⟨rfl, hsp⟩ := Text.of_splitFirst hs'
        split at ht
        · cases ht
          exact ⟨hsp, fun b hb => by simp [hb]⟩
        · cases ht
  unfold targetDest at hd
  split at hd
  · cases hd
  · rename_i host portText hs
    obtain ⟨port', -, he⟩ := Option.map_eq_some_iff.mp hd
    cases he
    rw [Text.append_of_splitLast hs] at htarget
    exact ⟨fun hm => htarget.1 (List.mem_append_left _ hm),
      fun b hb => htarget.2 b (List.mem_append_left _ hb)⟩

theorem user_of_credentials {fields : List (Bytes × Bytes)} {user pass : Bytes}
    (h : proxyCredentials fields = some (some (user, pass))) : 58 ∉ user := by
  unfold proxyCredentials at h
  split at h
  · cases h
  · rename_i f hf
    obtain ⟨up, hb, he⟩ := Option.map_eq_some_iff.mp h
    cases he
    unfold basicCredentials at hb
    split at hb
    · cases hb
    · split at hb
      · obtain ⟨x, -, hx⟩ := Option.bind_eq_some_iff.mp hb
        exact (Text.of_splitFirst hx).2
      · cases hb

/-- What the proxy reads holds no space, CR or LF in its host and no colon in its
user, whatever the request is. -/
theorem plain_of_parseConnect {bytes : Bytes}
    (h : parseConnect bytes = some (asked host port auth)) : Plain host auth := by
  unfold parseConnect at h
  split at h
  · rename_i first lines rest hread
    split at h
    · rename_i dest fields hdest hfields
      obtain ⟨credentials, hcreds, he⟩ := Option.map_eq_some_iff.mp h
      have hd : dest = ⟨.name (utf8 host), port⟩ := congrArg ConnectRequest.dest he
      have hc : credentials = auth.map fun creds => (utf8 creds.user, utf8 creds.pass) :=
        congrArg ConnectRequest.credentials he
      rw [hd] at hdest
      rw [hc] at hcreds
      obtain ⟨hsp, hmem⟩ := host_of_target hdest
      have hclean := Text.readHead_clean (List.forall_mem_nil _) hread first List.mem_cons_self
      refine ⟨?_, ?_⟩
      · intro c hm
        refine ⟨?_, ?_, ?_⟩
        · rintro rfl
          exact hsp ((mem_utf8_iff (by decide)).mpr hm)
        · rintro rfl
          exact (hclean 13 (hmem 13 ((mem_utf8_iff (c := '\r') (by decide)).mpr hm))).1 rfl
        · rintro rfl
          exact (hclean 10 (hmem 10 ((mem_utf8_iff (c := '\n') (by decide)).mpr hm))).2 rfl
      · rintro creds rfl hm
        exact user_of_credentials hcreds ((mem_utf8_iff (by decide)).mpr hm)
    · cases h
  · cases h

theorem asked_injective {host' : String} {port' : UInt16} {auth' : Option ProxyAuth}
    (h : asked host port auth = asked host' port' auth') :
    host = host' ∧ port = port' ∧ auth = auth' := by
  simp only [asked, ConnectRequest.mk.injEq, Dest.mk.injEq, Host.name.injEq] at h
  obtain ⟨⟨hh, hp⟩, -, hc, -⟩ := h
  refine ⟨utf8_injective hh, hp, ?_⟩
  refine Option.map_injective ?_ hc
  rintro ⟨u, p⟩ ⟨u', p'⟩ he
  obtain ⟨hu, hpass⟩ := Prod.mk.inj he
  cases utf8_injective hu
  cases utf8_injective hpass
  rfl

end

section
variable {C : Core}

theorem readResponse_quiet (fuel : Nat) (buf x : Bytes) :
    (feed (readResponse fuel buf : Stream C Bytes) x).written = [] := by
  induction fuel generalizing buf x with
  | zero => rfl
  | succ fuel ih =>
    refine feed_read_quiet ?_ x
    intro y z
    show (feed (if (buf ++ y).length > maxResponse then fail _
      else if Text.endsHead (buf ++ y) then done (buf ++ y)
      else readResponse fuel (buf ++ y) : Stream C Bytes) z).written = []
    split
    · rfl
    · split
      · rfl
      · exact ih (buf ++ y) z

theorem tunnelHttpConnect_written (host : String) (port : UInt16) (auth : Option ProxyAuth)
    (x : Bytes) :
    (feed (tunnelHttpConnect host port auth : Stream C Unit) x).written =
      [utf8 (connectText host port auth)] := by
  rw [tunnelHttpConnect_eq]
  show _ :: (feed ((readResponse (maxResponse + 1) []).bind
    fun head => ofExcept (checkStatus head) : Stream C Unit) x).written = _
  rw [feed_bind_written, readResponse_quiet]
  split
  · rw [feed_ofExcept]
    rfl
  · rfl

end

/-- A proxy reads from the written bytes just the host, the port and the
credentials that were asked for, no other header field and no byte behind the
head, if and only if they are plain; and among plain ones, different ones give
different requests. -/
theorem http_request_decodes_iff {C : Core} {cap : Nat} (host : String) (port : UInt16)
    (auth : Option ProxyAuth) {reads : List (Read UInt8 IoError cap)} (hd : drops reads = 0) :
    (parseConnect (runOn (tunnelHttpConnect host port auth : Stream C Unit) reads).written.flatten =
      some (asked host port auth) ↔ Plain host auth) ∧
    ∀ host' port' auth', Plain host auth → Plain host' auth' →
      (runOn (tunnelHttpConnect host port auth : Stream C Unit) reads).written =
        (runOn (tunnelHttpConnect host' port' auth' : Stream C Unit) reads).written →
      host = host' ∧ port = port' ∧ auth = auth' := by
  have hw : ∀ host port auth,
      (runOn (tunnelHttpConnect host port auth : Stream C Unit) reads).written =
        [utf8 (connectText host port auth)] := by
    intro host port auth
    rw [(converse_eq _ _ _ reads hd).1]
    exact tunnelHttpConnect_written host port auth _
  refine ⟨?_, ?_⟩
  · rw [hw, List.flatten_cons, List.flatten_nil, List.append_nil]
    exact ⟨plain_of_parseConnect, parseConnect_connectText⟩
  · intro host' port' auth' h h' heq
    rw [hw, hw] at heq
    have hparse : parseConnect (utf8 (connectText host port auth)) =
        some (asked host port auth) := parseConnect_connectText h
    rw [(List.cons.inj heq).1, parseConnect_connectText h'] at hparse
    exact asked_injective (Option.some.inj hparse.symm)

end Obfs.Proxy

namespace Obfs.Symbolic
open Dialogue Framing Proxy

theorem established200_ok (host : String) (port : UInt16) (auth : Option ProxyAuth) :
    (runOn (tunnelHttpConnect host port auth : Stream core Unit) established200).result =
        some (.ok ()) ∧
      (runOn (tunnelHttpConnect host port auth : Stream core Unit) established200).written =
        [utf8 (connectText host port auth)] := by
  have hr : Returns (tunnelHttpConnect host port auth : Stream core Unit) (incoming established200)
      [utf8 (connectText host port auth)] () ((incoming established200).drop 9) :=
    tunnelHttpConnect_returns.mpr
      ⟨rfl, 9, by decide, established200_head, established200_accepted, rfl⟩
  obtain ⟨hok, hw, -⟩ := hr.converse earlyEof .io rfl rfl
  exact ⟨hok, hw⟩

/- A host that ends the line itself: another destination and more header fields.
A user with a colon: the request of another user. Both calls succeed. -/
theorem spliced_request_misread :
    (runOn (tunnelHttpConnect "a:1 HTTP/1.1\r\nX: y" 80 none : Stream core Unit)
      established200).result = some (.ok ()) ∧
    parseConnect (runOn (tunnelHttpConnect "a:1 HTTP/1.1\r\nX: y" 80 none : Stream core Unit)
      established200).written.flatten =
        some ⟨⟨.name (utf8 "a"), 1⟩, [utf8 "X", utf8 "Host", utf8 "X"], none, []⟩ ∧
    (runOn (tunnelHttpConnect "t" 80 (some ⟨"a:b", "c"⟩) : Stream core Unit)
      established200).result = some (.ok ()) ∧
    parseConnect (runOn (tunnelHttpConnect "t" 80 (some ⟨"a:b", "c"⟩) : Stream core Unit)
      established200).written.flatten = some (asked "t" 80 (some ⟨"a", "b:c"⟩)) ∧
    (runOn (tunnelHttpConnect "t" 80 (some ⟨"a:b", "c"⟩) : Stream core Unit)
      established200).written =
        (runOn (tunnelHttpConnect "t" 80 (some ⟨"a", "b:c"⟩) : Stream core Unit)
          established200).written := by
  simp only [(established200_ok _ _ _).1, (established200_ok _ _ _).2, List.flatten_cons,
    List.flatten_nil, List.append_nil, true_and]
  refine ⟨by decide +kernel, by decide +kernel, by decide +kernel⟩

theorem http_request_decodes_iff_login :
    drops established200 = 0 ∧ Plain "::1" (some ⟨"a", "b:c"⟩) ∧
    parseConnect (runOn (tunnelHttpConnect "::1" 80 (some ⟨"a", "b:c"⟩) : Stream core Unit)
      established200).written.flatten = some (asked "::1" 80 (some ⟨"a", "b:c"⟩)) ∧
    (runOn (tunnelHttpConnect "::1" 80 (some ⟨"a", "b:c"⟩) : Stream core Unit)
      established200).written ≠
        (runOn (tunnelHttpConnect "::1" 81 none : Stream core Unit) established200).written := by
  have hd : drops established200 = 0 := rfl
  have hplain : Plain "::1" (some ⟨"a", "b:c"⟩) := by
    refine ⟨List.all_iff_forall_prop.mp (by decide), ?_⟩
    rintro creds ⟨rfl⟩
    decide
  refine ⟨hd, hplain, (http_request_decodes_iff "::1" 80 _ hd).1.mpr hplain, ?_⟩
  intro heq
  have hnone : Plain "::1" none := ⟨hplain.host, fun _ h => by cases h⟩
  have := ((http_request_decodes_iff "::1" 80 _ hd).2 "::1" 81 none hplain hnone heq).2.1
  exact absurd this (by decide)

end Obfs.Symbolic
