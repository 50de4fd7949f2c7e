/-
**No header twice.**

What `writeRequest` writes between the request line and the body: the headers that it generates, each
unless its flag is set, and then those of the user. It asks no flag before it writes the line that signs
the request, and a flag is set also by a header of the user without a colon, which is a name and no
header.

* `request_text`: the request as lines;
* `countP_generatedLines`: which headers are generated;
* `headers_once_iff`: **each header stands there at most once**, and is generated exactly where it is due
  and not given, unless the user signs and gives an `Authorization`, or gives a bare name.
-/

import Apib.Main.Headers

namespace Apib.Main

open OAuth
open HeaderOptions (readName)

/-! ### The lines of a request -/

/-- A header of some name. -/
def named (m : Flagged) (line : Bytes) : Bool := line.contains 58 && m.called (readName line)

/-- Is a header to be sent? -/
def due (cfg : Config) : Flagged → Bool
  | .host | .userAgent => true
  | .contentType | .contentLength => !cfg.sendData.isEmpty
  | .authorization => cfg.oauth
  | .connection => cfg.noKeepAlive

/-- Does `writeRequest` generate a header? -/
def generates (cfg : Config) (m : Flagged) : Bool :=
  due cfg m && (m == .authorization || cfg.headersSet &&& m.flag == 0)

/-- The headers in the order of `writeRequest`. -/
def order : List Flagged := [.userAgent, .host, .contentType, .contentLength, .authorization, .connection]

section Lines

variable (cfg : Config) (url : URLInfo) (authHdr : Bytes)

/-- The line that `writeRequest` generates for a header. -/
def generatedLine : Flagged → Bytes
  | .host => ascii "Host: " ++ url.hostHeader
  | .contentLength => ascii "Content-Length: " ++ ascii (ToString.toString cfg.sendData.length)
  | .contentType => ascii "Content-Type: text/plain"
  | .authorization => authHdr
  | .connection => ascii "Connection: close"
  | .userAgent => ascii "User-Agent: apib"

/-- The lines that `writeRequest` generates. -/
def generatedLines : List Bytes := (order.filter (generates cfg)).map (generatedLine cfg url authHdr)

/-- The lines between the request line and the body. -/
def headerLines : List Bytes := generatedLines cfg url authHdr ++ cfg.headers.getD []

theorem flatMap_generatedLines : (generatedLines cfg url authHdr).flatMap (· ++ ascii "\r\n") =
    order.flatMap fun m =>
      if generates cfg m then generatedLine cfg url authHdr m ++ ascii "\r\n" else [] := by
  unfold generatedLines
  induction order with
  | nil => rfl
  | cons m order ih =>
    rw [List.filter_cons, List.flatMap_cons, ← ih]
    split
    · rw [List.map_cons, List.flatMap_cons]
    · rfl

/-- **The request as lines.** -/
theorem request_text : (requestPieces cfg url authHdr).flatten =
    cfg.httpVerb ++ 32 :: url.path ++ ascii " HTTP/1.1\r\n" ++
      (headerLines cfg url authHdr).flatMap (· ++ ascii "\r\n") ++ ascii "\r\n" ++ cfg.sendData := by
  have user (headers : List Bytes) : (headers.flatMap fun header => [header, ascii "\r\n"]).flatten =
      headers.flatMap (· ++ ascii "\r\n") := by
    induction headers with
    | nil => rfl
    | cons header headers ih =>
      simpa using ih
  have written (m : Flagged) (pieces : List Bytes) (condition : Prop) [Decidable condition]
      (same : condition ↔ generates cfg m = true)
      (text : pieces.flatten = generatedLine cfg url authHdr m ++ ascii "\r\n") :
      (if condition then pieces else []).flatten =
        if generates cfg m then generatedLine cfg url authHdr m ++ ascii "\r\n" else [] := by
    by_cases here : condition
    · rw [if_pos here, if_pos (same.mp here), text]
    · rw [if_neg here, if_neg (fun generated => here (same.mpr generated))]
      rfl
  have body : (if cfg.sendData ≠ [] then
      (if cfg.headersSet &&& IOThread.kContentTypeSet = 0 then
        [ascii "Content-Type: text/plain\r\n"] else []) ++
      (if cfg.headersSet &&& IOThread.kContentLengthSet = 0 then
        [ascii "Content-Length: ", ascii (ToString.toString cfg.sendData.length), ascii "\r\n"] else [])
      else []) =
      (if cfg.sendData ≠ [] ∧ cfg.headersSet &&& IOThread.kContentTypeSet = 0 then
        [ascii "Content-Type: text/plain\r\n"] else []) ++
      (if cfg.sendData ≠ [] ∧ cfg.headersSet &&& IOThread.kContentLengthSet = 0 then
        [ascii "Content-Length: ", ascii (ToString.toString cfg.sendData.length), ascii "\r\n"] else []) := by
    by_cases some_byte : cfg.sendData ≠ []
    · simp only [some_byte, if_true, true_and, ne_eq, not_false_eq_true]
    · simp only [some_byte, if_false, false_and, List.append_nil]
  have agent : [ascii "User-Agent: apib\r\n"].flatten = ascii "User-Agent: apib" ++ ascii "\r\n" := by decide
  have type : [ascii "Content-Type: text/plain\r\n"].flatten =
      ascii "Content-Type: text/plain" ++ ascii "\r\n" := by decide
  have close : [ascii "Connection: close\r\n"].flatten = ascii "Connection: close" ++ ascii "\r\n" := by
    decide
  rw [headerLines, List.flatMap_append, flatMap_generatedLines, requestPieces, body]
  simp only [List.flatten_append]
  rw [written .userAgent _ _ (by simp [generates, due, Flagged.flag]) agent,
    written .host _ _ (by simp [generates, due, Flagged.flag]) (by simp [generatedLine]),
    written .contentType _ _ (by simp [generates, due, Flagged.flag]) type,
    written .contentLength _ _ (by simp [generates, due, Flagged.flag]) (by simp [generatedLine]),
    written .authorization _ _ (by simp [generates, due]) (by simp [generatedLine]),
    written .connection _ _ (by simp [generates, due, Flagged.flag]) close]
  have sent : (if cfg.sendData ≠ [] then [cfg.sendData] else []).flatten = cfg.sendData := by
    by_cases some_byte : cfg.sendData = [] <;> simp [some_byte]
  rw [sent]
  have space : ascii " " = [32] := rfl
  cases cfg.headers with
  | none => simp [order, space]
  | some headers =>
    have given := user headers
    simp only [Option.getD_some]
    rw [given]
    simp [order, space]

end Lines

/-! ### Which header a line is -/

namespace Flagged

theorem free_name (m : Flagged) : 58 ∉ m.name := by
  cases m <;> decide

/-- A line under a name. -/
theorem named_line (m k : Flagged) (rest : Bytes) : named m (k.name ++ 58 :: rest) = (k == m) := by
  have read : readName (k.name ++ 58 :: rest) = k.name := by
    rw [readName, List.splitOn_append_cons_self_of_not_mem k.free_name]
    rfl
  have colon : (k.name ++ 58 :: rest).contains 58 = true := by simp
  rw [named, colon, read, Bool.true_and, Bool.eq_iff_iff, called_iff, name_inj, beq_iff_eq]

/-- Only the whole of a line without a colon is a name. -/
theorem called_free {m : Flagged} {val : Bytes} (called : m.called val = true) : 58 ∉ val := by
  intro member
  have lowered := List.mem_map_of_mem (f := Numerals.tolower) member
  rw [called_iff.mp called] at lowered
  revert lowered
  cases m <;> decide

end Flagged

/-- What an OAuth header starts with. -/
theorem makeHeader_line {hmac : Bytes → Bytes → Bytes} {url : URLInfo} {realm method : Bytes}
    {timestamp first second : Int} {sendData : Option Bytes} {oauth : OAuthInfo} {line : Bytes}
    (made : makeHeader hmac url realm method timestamp first second sendData oauth = some line) :
    ∃ rest, line = Flagged.authorization.name ++ 58 :: rest := by
  obtain ⟨base, -, rfl⟩ := Option.map_eq_some_iff.mp made
  have start : ascii "Authorization: OAuth realm=\"" =
      Flagged.authorization.name ++ 58 :: ascii " OAuth realm=\"" := by decide
  unfold headerText
  rw [start]
  simp only [List.append_assoc, List.cons_append]
  exact ⟨_, rfl⟩

section Named

variable {cfg : Config} {url : URLInfo} {authHdr : Bytes}

/-- A line that is generated is under its name. -/
theorem generatedLine_name (signed : cfg.oauth = true → ∃ rest, authHdr = Flagged.authorization.name ++ 58 :: rest)
    {m : Flagged} (generated : generates cfg m = true) :
    ∃ rest, generatedLine cfg url authHdr m = m.name ++ 58 :: rest := by
  cases m with
  | host => exact ⟨32 :: url.hostHeader, rfl⟩
  | contentLength => exact ⟨32 :: ascii (ToString.toString cfg.sendData.length), rfl⟩
  | contentType => exact ⟨ascii " text/plain", rfl⟩
  | authorization => exact signed (by simpa [generates, due] using generated)
  | connection => exact ⟨ascii " close", rfl⟩
  | userAgent => exact ⟨ascii " apib", rfl⟩

/-- **Each header is generated once**, or not at all. -/
theorem countP_generatedLines
    (signed : cfg.oauth = true → ∃ rest, authHdr = Flagged.authorization.name ++ 58 :: rest) (m : Flagged) :
    (generatedLines cfg url authHdr).countP (named m) = if generates cfg m then 1 else 0 := by
  have each : ∀ k ∈ order.filter (generates cfg),
      (named m ∘ generatedLine cfg url authHdr) k = true ↔ (k == m) = true := by
    intro k member
    obtain ⟨rest, line⟩ := @generatedLine_name _ url _ signed _ (List.mem_filter.mp member).2
    rw [Function.comp, line, Flagged.named_line]
  rw [generatedLines, List.countP_map, List.countP_congr each, List.countP_filter]
  cases generated : generates cfg m with
  | false =>
    refine List.countP_eq_zero.mpr fun k _ both => ?_
    obtain ⟨same, here⟩ := Bool.and_eq_true_iff.mp both
    rw [beq_iff_eq.mp same, generated] at here
    cases here
  | true =>
    have once : order.count m = 1 := by
      cases m <;> rfl
    rw [if_pos rfl, ← once, List.count]
    refine List.countP_congr fun k _ => ?_
    rw [Bool.and_eq_true_iff, and_iff_left_iff_imp]
    intro same
    rw [beq_iff_eq.mp same, generated]

end Named

/-! ### The headers of a command line -/

namespace HeaderOptions

/-- The user gave the header. -/
def Gives (h : HeaderOptions) (m : Flagged) : Prop := ∃ val ∈ h.headers, named m val = true

/-- The user gave the name of the header without a colon. -/
def GivesBare (h : HeaderOptions) (m : Flagged) : Prop := ∃ val ∈ h.headers, m.called val = true

theorem added_iff {h : HeaderOptions} {m : Flagged} : h.Added m ↔ h.Gives m ∨ h.GivesBare m := by
  constructor
  · rintro ⟨val, member, called⟩
    by_cases colon : 58 ∈ val
    · exact .inl ⟨val, member, by simp [named, colon, called]⟩
    · rw [readName, List.splitOn_eq_singleton colon] at called
      exact .inr ⟨val, member, called⟩
  · rintro (⟨val, member, here⟩ | ⟨val, member, called⟩)
    · exact ⟨val, member, (Bool.and_eq_true_iff.mp here).2⟩
    · refine ⟨val, member, ?_⟩
      rw [readName, List.splitOn_eq_singleton (Flagged.called_free called)]
      exact called

theorem countP_pos_iff_gives {h : HeaderOptions} {m : Flagged} : 0 < h.headers.countP (named m) ↔ h.Gives m :=
  List.countP_pos_iff

end HeaderOptions

/-- **The headers of a request**: none of those with a flag twice, `Host` always, all of the user's, and
one generated exactly where it is due and the user gave none. -/
structure HeadersOnce (h : HeaderOptions) (cfg : Config) (url : URLInfo) (authHdr : Bytes) : Prop where
  once : ∀ m, (headerLines cfg url authHdr).countP (named m) ≤ 1
  host : (headerLines cfg url authHdr).countP (named .host) = 1
  own : ∀ val ∈ h.headers, val ∈ headerLines cfg url authHdr
  generated : ∀ m, 0 < (generatedLines cfg url authHdr).countP (named m) ↔ due cfg m = true ∧ ¬ h.Gives m

section CommandLine

variable {h : HeaderOptions} {cfg : Config} {url : URLInfo} {authHdr : Bytes}

/-- What a thread has of the options. -/
structure Configured (h : HeaderOptions) (cfg : Config) : Prop where
  headers : cfg.headers = some h.headers
  headersSet : cfg.headersSet = h.setHeaders
  oauth : cfg.oauth = h.oauth.isSome
  consistent : h.Consistent

theorem configured (options : List HeaderOption) (others : Options) (ix : Nat) :
    Configured (.read options) (((HeaderOptions.read options).apply others).initializeThread ix) :=
  ⟨rfl, rfl, rfl, HeaderOptions.set_iff options⟩

/-- When `writeRequest` generates a header, in terms of what the user gave. -/
theorem generates_iff (configured : Configured h cfg) (m : Flagged) :
    generates cfg m = true ↔ due cfg m = true ∧ (m = .authorization ∨ ¬ h.Gives m ∧ ¬ h.GivesBare m) := by
  have flag := configured.consistent m
  rw [HeaderOptions.added_iff, ← configured.headersSet] at flag
  rw [generates, Bool.and_eq_true_iff, Bool.or_eq_true_iff, beq_iff_eq, beq_iff_eq]
  by_cases auth : m = .authorization
  · simp [auth]
  · have clear : cfg.headersSet &&& m.flag = 0 ↔ ¬ h.Gives m ∧ ¬ h.GivesBare m := by
      rw [← not_or, ← not_iff_not, not_not]
      simpa [auth] using flag
    rw [clear]

/-- Where no header is given and generated, and none left out for a bare name, one is generated exactly
where it is due and not given. -/
theorem generates_iff_missing (configured : Configured h cfg)
    (unsigned : h.oauth.isSome = true → ¬ h.Gives .authorization)
    (proper : ∀ m, m ≠ .authorization → due cfg m = true → h.GivesBare m → h.Gives m) (m : Flagged) :
    generates cfg m = true ↔ due cfg m = true ∧ ¬ h.Gives m := by
  rw [generates_iff configured]
  refine and_congr_right fun due_here => ⟨?_, fun missing => ?_⟩
  · rintro (rfl | ⟨missing, -⟩)
    · exact unsigned (configured.oauth.symm.trans due_here)
    · exact missing
  · by_cases auth : m = .authorization
    · exact .inl auth
    · exact .inr ⟨missing, fun bare => missing (proper m auth due_here bare)⟩

section Counted

variable (signed : cfg.oauth = true → ∃ rest, authHdr = Flagged.authorization.name ++ 58 :: rest)
include signed

theorem countP_generatedLines_pos (m : Flagged) :
    0 < (generatedLines cfg url authHdr).countP (named m) ↔ generates cfg m = true := by
  rw [countP_generatedLines signed]
  split <;> simp [*]

/-- The lines with a header: the one generated, and those given. -/
theorem countP_headerLines (configured : Configured h cfg) (m : Flagged) :
    (headerLines cfg url authHdr).countP (named m) =
      (if generates cfg m then 1 else 0) + h.headers.countP (named m) := by
  rw [headerLines, List.countP_append, countP_generatedLines signed, configured.headers]
  rfl

/-- Where those that are generated are not given, they stand once, and the others as often as given. -/
theorem countP_headerLines_apart (configured : Configured h cfg) {m : Flagged}
    (missing : generates cfg m = true → ¬ h.Gives m) :
    (headerLines cfg url authHdr).countP (named m) =
      if generates cfg m then 1 else h.headers.countP (named m) := by
  rw [countP_headerLines signed configured]
  split
  · next here =>
    have none_given : ¬ 0 < h.headers.countP (named m) := fun some_given =>
      missing here (HeaderOptions.countP_pos_iff_gives.mp some_given)
    omega
  · exact Nat.zero_add _

/-- **Where no header is given and generated, and none left out for a bare name**, every header stands
once. -/
theorem headersOnce_iff (configured : Configured h cfg) (single : ∀ m, h.headers.countP (named m) ≤ 1) :
    HeadersOnce h cfg url authHdr ↔
      (h.oauth.isSome = true → ¬ h.Gives .authorization) ∧
        ∀ m, m ≠ .authorization → due cfg m = true → h.GivesBare m → h.Gives m := by
  have shown (m : Flagged) := @countP_generatedLines_pos cfg url authHdr signed m
  constructor
  · intro once
    refine ⟨fun oauth gives => ?_, fun m other due_here bare => ?_⟩
    · have generated : generates cfg .authorization = true :=
        (generates_iff configured .authorization).mpr ⟨configured.oauth.trans oauth, .inl rfl⟩
      exact ((once.generated .authorization).mp ((shown .authorization).mpr generated)).2 gives
    · by_contra missing
      have generated := (shown m).mp ((once.generated m).mpr ⟨due_here, missing⟩)
      rcases ((generates_iff configured m).mp generated).2 with same | ⟨-, no_bare⟩
      · exact other same
      · exact no_bare bare
  · rintro ⟨unsigned, proper⟩
    have generated := generates_iff_missing configured unsigned proper
    have apart (m : Flagged) : (headerLines cfg url authHdr).countP (named m) =
        if generates cfg m then 1 else h.headers.countP (named m) :=
      countP_headerLines_apart signed configured fun here => ((generated m).mp here).2
    refine ⟨fun m => ?_, ?_, fun val member => ?_, fun m => (shown m).trans (generated m)⟩
    · rw [apart]
      split
      · exact Nat.le_refl 1
      · exact single m
    · rw [apart]
      split
      · rfl
      · next left_out =>
        have gives : h.Gives .host := by
          by_contra missing
          exact left_out ((generated .host).mpr ⟨rfl, missing⟩)
        have some_given := HeaderOptions.countP_pos_iff_gives.mpr gives
        have one := single .host
        omega
    · rw [headerLines, configured.headers]
      exact List.mem_append_right _ member

end Counted

end CommandLine

/-- The settings of a thread that is started with options for headers and others. -/
def configOf (options : List HeaderOption) (others : Options) (ix : Nat) : Config :=
  ((HeaderOptions.read options).apply others).initializeThread ix

/-- The URL `http://a/?x=1` with a body of one byte. -/
def oneByteBody : Options where
  file := some [120]
  urls := [{ path := ascii "/?x=1", pathOnly := ascii "/", query := ascii "x=1", hostName := ascii "a",
             hostHeader := ascii "a", addresses := [] }]
  some_url := List.cons_ne_nil _ _

/-- A header of the user, credentials, a type and no keep-alive. -/
def fourHeaders : List HeaderOption :=
  [.header (ascii "hOST: b"), .basic (ascii "user:pw"), .contentType (ascii "text/xml"), .keepAlive 0]

/-- Keys to sign with, and an `Authorization` besides. -/
def signedAndGiven : List HeaderOption := [.oauth (ascii "key:secret"), .header (ascii "Authorization: x")]

end Apib.Main
