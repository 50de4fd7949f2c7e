/-
**From the command line to the server.**

What the options say is what a server is told: with the options for headers, a URL that the program accepts
and header lines that are fields, whatever a server reads off a socket are requests for the URLs of the list
with all that the options give and nothing else.

* `read_headers`: the header lines of a command line;
* `sendable_configOf`: **with proper options the requests can be read**;
* `conveys_requestOf`: what a request says is what the options do;
* `command_line_received`: **so in every run a server reads what the command line says**, the credentials
  of `-u` in Base64 among it.
-/

import Apib.Dialogue.Received
import Apib.Main.Base64
import Apib.Net.Targets
import Apib.OAuth.Sent

namespace Apib

open Http Numerals Main OAuth
open HeaderOptions (readName)

/-! ### The header lines of a command line -/

/-- The header line that an option gives. -/
def Main.HeaderOption.line : HeaderOption → Option Bytes
  | .header val => some val
  | .basic arg => some (ascii "Authorization: Basic " ++ base64encode arg)
  | .contentType _ | .oauth _ | .keepAlive _ => none

/-- The type that an option gives. -/
def Main.HeaderOption.type : HeaderOption → Option Bytes
  | .contentType val => some val
  | .header _ | .basic _ | .oauth _ | .keepAlive _ => none

/-- The type that a command line gives: the last one. -/
def givenType (options : List HeaderOption) : Bytes := (options.filterMap HeaderOption.type).getLastD []

section Lines

variable (options : List HeaderOption)

theorem process_headers (h : HeaderOptions) (option : HeaderOption) :
    (h.process option).headers = h.headers ++ option.line.toList ∧
      (h.process option).contentType = option.type.getD h.contentType := by
  cases option with
  | header val => exact ⟨by rw [HeaderOptions.process, HeaderOptions.addHeader_eq]; rfl,
      by rw [HeaderOptions.process, HeaderOptions.addHeader_eq]; rfl⟩
  | basic arg => exact ⟨by rw [HeaderOptions.process, HeaderOptions.processBasic, HeaderOptions.addHeader_eq]; rfl,
      by rw [HeaderOptions.process, HeaderOptions.processBasic, HeaderOptions.addHeader_eq]; rfl⟩
  | contentType | oauth | keepAlive => exact ⟨(List.append_nil _).symm, rfl⟩

theorem foldl_headers (h : HeaderOptions) :
    (options.foldl HeaderOptions.process h).headers = h.headers ++ options.filterMap HeaderOption.line ∧
      (options.foldl HeaderOptions.process h).contentType =
        (options.filterMap HeaderOption.type).getLastD h.contentType := by
  induction options generalizing h with
  | nil => exact ⟨(List.append_nil _).symm, rfl⟩
  | cons option options ih =>
    obtain ⟨headers, type⟩ := process_headers h option
    obtain ⟨later_headers, later_type⟩ := ih (h.process option)
    rw [List.foldl_cons, later_headers, later_type, headers, type, List.filterMap_cons, List.filterMap_cons]
    constructor
    · cases option.line with
      | none => simp
      | some line => simp
    · cases option.type with
      | none => rfl
      | some val => exact List.getLastD_cons.symm

/-- **The header lines of a command line**, and behind them the type if one is given. -/
theorem read_headers : (HeaderOptions.read options).headers = options.filterMap HeaderOption.line ++
    if givenType options = [] then [] else [ascii "Content-Type: " ++ givenType options] := by
  obtain ⟨headers, type⟩ := foldl_headers options {}
  have of_type : (options.foldl HeaderOptions.process {}).contentType = givenType options := type
  unfold HeaderOptions.read
  dsimp only
  rw [of_type]
  by_cases none_given : givenType options = []
  · rw [if_pos none_given, if_pos none_given, headers]
    simp
  · rw [if_neg none_given, if_neg none_given, HeaderOptions.addHeader_eq]
    dsimp only
    rw [headers]
    rfl

/-- What the header lines of a command line are. -/
theorem mem_read_headers {val : Bytes} : val ∈ (HeaderOptions.read options).headers ↔
    (∃ option ∈ options, option.line = some val) ∨
      givenType options ≠ [] ∧ val = ascii "Content-Type: " ++ givenType options := by
  rw [read_headers, List.mem_append, List.mem_filterMap]
  refine or_congr_right ?_
  split
  · next empty => simp [empty]
  · next some_type => simp [some_type]

end Lines

/-! ### Proper options -/

/-- A header line that is a field and says nothing of the body. -/
structure ProperLine (val : Bytes) : Prop where
  line : FieldLine val
  no_length : ¬(fieldOf val).Named "content-length"
  no_coding : ¬(fieldOf val).Named "transfer-encoding"

/-- The options with which a server can read the requests. -/
def Main.HeaderOption.Proper : HeaderOption → Prop
  | .header val => ProperLine val
  | .contentType val => ∀ b ∈ val, isText b = true
  | .basic _ | .oauth _ | .keepAlive _ => True

/-- A line under the name of a header that has a flag. -/
theorem fieldLine_flagged (m : Flagged) {text : Bytes} (inside : ∀ b ∈ text, isText b = true) :
    FieldLine (m.name ++ 58 :: text) ∧ fieldOf (m.name ++ 58 :: text) = ⟨m.name, text⟩ := by
  obtain ⟨some_name, token⟩ := m.name_token
  exact ⟨⟨⟨m.name, text⟩, ⟨some_name, token, inside⟩, rfl⟩, fieldOf_line token text⟩

theorem properLine_flagged {m : Flagged} (other : m ≠ .contentLength) {text : Bytes}
    (inside : ∀ b ∈ text, isText b = true) : ProperLine (m.name ++ 58 :: text) := by
  obtain ⟨line, field⟩ := fieldLine_flagged m inside
  obtain ⟨length, coding⟩ := m.named text
  exact ⟨line, by rw [field, length]; exact other, by rw [field]; exact coding⟩

/-- What is encoded in Base64 may stand in a field. -/
theorem base64encode_text (text : Bytes) : ∀ b ∈ ascii " Basic " ++ base64encode text, isText b = true := by
  have alphabet : ∀ c ∈ basis64, isText c = true := forall_listed (by decide +kernel)
  refine List.forall_mem_append.mpr ⟨forall_listed (by decide +kernel), fun b member => ?_⟩
  rcases base64encode_mem text b member with of_alphabet | rfl
  · exact alphabet b of_alphabet
  · decide

/-- The line of `-u`. -/
theorem basic_line (arg : Bytes) : ascii "Authorization: Basic " ++ base64encode arg =
    Flagged.authorization.name ++ 58 :: (ascii " Basic " ++ base64encode arg) := rfl

/-- The line of `-t`. -/
theorem type_line (val : Bytes) : ascii "Content-Type: " ++ val = Flagged.contentType.name ++ 58 :: 32 :: val := rfl

section Proper

variable {options : List HeaderOption} (proper : ∀ option ∈ options, option.Proper)
include proper

theorem givenType_text : ∀ b ∈ 32 :: givenType options, isText b = true := by
  refine List.forall_mem_cons.mpr ⟨by decide, ?_⟩
  rw [givenType, List.getLastD_eq_getLast?]
  cases last : (options.filterMap HeaderOption.type).getLast? with
  | none => simp
  | some val =>
    obtain ⟨option, member, type⟩ := List.mem_filterMap.mp (List.mem_of_getLast? last)
    have here := proper option member
    cases option with
    | contentType val =>
      obtain rfl := Option.some.inj type
      exact here
    | header | basic | oauth | keepAlive => cases type

/-- **All header lines of proper options** are fields that say nothing of the body. -/
theorem properLine_read : ∀ val ∈ (HeaderOptions.read options).headers, ProperLine val := by
  intro val member
  rcases (mem_read_headers options).mp member with ⟨option, there, line⟩ | ⟨-, rfl⟩
  · have here := proper option there
    cases option with
    | header val =>
      obtain rfl := Option.some.inj line
      exact here
    | basic arg =>
      obtain rfl := Option.some.inj line
      rw [basic_line]
      exact properLine_flagged (by decide) (base64encode_text arg)
    | contentType | oauth | keepAlive => cases line
  · rw [type_line]
    exact properLine_flagged (by decide) (givenType_text proper)

end Proper

/-! ### The settings of a thread -/

section Settings

variable {options : List HeaderOption} {others : Options} {ix : Nat}

theorem givenFields_configOf :
    (configOf options others ix).givenFields = (HeaderOptions.read options).headers.map fieldOf := rfl

/-- A proper line is not under a name of which it says nothing. -/
theorem called_contentLength {val : Bytes} (proper : ProperLine val) :
    ¬ Flagged.contentLength.called (readName val) = true := by
  intro called
  obtain ⟨⟨f, valid, rfl⟩, no_length, -⟩ := proper
  have outside : 58 ∉ f.name := by
    intro member
    exact absurd (valid.name_token 58 member) (by decide)
  have name : readName (f.name ++ 58 :: f.value) = f.name := by
    rw [readName, List.splitOn_append_cons_self_of_not_mem outside]
    rfl
  rw [name, Flagged.called_iff] at called
  rw [fieldOf_line valid.name_token] at no_length
  apply no_length
  show f.name.map tolower = _
  rw [called]
  decide

/-- Without a coding and a length there is no body. -/
theorem bodyLength_bare {fields : List Field} (no_coding : ∀ f ∈ fields, ¬f.Named "transfer-encoding")
    (no_length : ∀ f ∈ fields, ¬f.Named "content-length") : bodyLength fields = some 0 := by
  have none_coded : ¬∃ f ∈ fields, f.Named "transfer-encoding" := by
    rintro ⟨f, member, coded⟩
    exact no_coding f member coded
  have none_there : fields.filter (·.Named "content-length") = [] :=
    List.filter_eq_nil_iff.mpr fun f member => by simpa using no_length f member
  rw [bodyLength, if_neg none_coded, none_there]

/-- The verb of the requests is a token. -/
theorem verb_configOf (token : ∀ b ∈ others.verb, isTokenChar b = true) :
    (configOf options others ix).httpVerb ≠ [] ∧
      ∀ b ∈ (configOf options others ix).httpVerb, isTokenChar b = true := by
  unfold configOf HeaderOptions.apply Options.initializeThread
  dsimp only
  split
  · split
    · exact ⟨by decide, forall_listed (by decide +kernel)⟩
    · exact ⟨by decide, forall_listed (by decide +kernel)⟩
  · next given => exact ⟨given, token⟩

/-- **With proper options a length is announced where there is a body.** -/
theorem generates_length (proper : ∀ option ∈ options, option.Proper)
    (some_byte : (configOf options others ix).sendData ≠ []) :
    generates (configOf options others ix) .contentLength = true := by
  have lines := properLine_read proper
  refine (generates_iff (configured options others ix) .contentLength).mpr ⟨?_, .inr ⟨?_, ?_⟩⟩
  · show (!(configOf options others ix).sendData.isEmpty) = true
    simpa using some_byte
  · rintro ⟨val, member, here⟩
    exact called_contentLength (lines val member) (Bool.and_eq_true_iff.mp here).2
  · rintro ⟨val, member, called⟩
    obtain ⟨⟨f, -, rfl⟩, -, -⟩ := lines val member
    exact Flagged.called_free called (by simp)

/-- **With proper options the requests can be read**, for URLs that are accepted. -/
theorem sendable_configOf (proper : ∀ option ∈ options, option.Proper)
    (token : ∀ b ∈ others.verb, isTokenChar b = true) {strict : Bool} {lookup : Bytes → List Address}
    (urls : ∀ url ∈ others.urls, ∃ text, Net.Accepted strict lookup url text) :
    (configOf options others ix).Sendable := by
  have lines := properLine_read proper
  have target : ∀ url ∈ others.urls, url.path ≠ [] ∧ (∀ b ∈ url.path, isTargetChar b = true) ∧
      ∀ b ∈ url.hostHeader, isText b = true := by
    intro url listed
    obtain ⟨text, given⟩ := urls url listed
    exact Net.init_target given
  have no_length : ∀ f ∈ (configOf options others ix).givenFields, ¬f.Named "content-length" := by
    intro f member
    obtain ⟨val, there, rfl⟩ := List.mem_map.mp member
    exact (lines val there).no_length
  have no_coding : ∀ f ∈ (configOf options others ix).givenFields, ¬f.Named "transfer-encoding" := by
    intro f member
    obtain ⟨val, there, rfl⟩ := List.mem_map.mp member
    exact (lines val there).no_coding
  refine ⟨(verb_configOf token).1, (verb_configOf token).2, fun url listed => (target url listed).1,
    fun url listed => (target url listed).2.1, fun url listed => (target url listed).2.2,
    fun val member => (lines val member).line, no_coding, ?_⟩
  split
  · exact no_length
  · next quiet =>
    have no_body : (configOf options others ix).sendData = [] := by
      by_contra some_byte
      exact quiet (generates_length proper some_byte)
    rw [bodyLength_bare no_coding no_length, no_body]
    rfl

end Settings

/-! ### Signed lines -/

/-- A line that `oauth_MakeHeader` makes for a URL, with the settings of a thread. -/
def SignedBy (hmac : Bytes → Bytes → Bytes) (cfg : Config) (url : URLInfo) (oauth : OAuthInfo)
    (line : Bytes) : Prop :=
  ∃ timestamp first second, makeHeader hmac url [] cfg.httpVerb timestamp first second none oauth = some line

/-- Parameters as they are written may stand in a field. -/
theorem quoteFields_text {params : List Param} (all : ∀ param ∈ params, PlainParam param) :
    ∀ b ∈ quoteFields params, isText b = true := by
  have of_plain : ∀ b, PercentEncoding.plain b = true → isText b = true := forall_byte (by decide +kernel)
  intro b member
  obtain ⟨param, there, here⟩ := List.mem_flatMap.mp member
  obtain ⟨names, values⟩ := List.forall_mem_append.mp (all param there)
  have front : ∀ b ∈ ascii ", ", isText b = true := forall_listed (by decide +kernel)
  have sign : ∀ b ∈ ascii "=\"", isText b = true := forall_listed (by decide +kernel)
  simp only [List.mem_append, List.mem_singleton] at here
  rcases here with (((comma | name) | equals) | value) | rfl
  · exact front b comma
  · exact of_plain b (names b name)
  · exact sign b equals
  · exact of_plain b (values b value)
  · decide

/-- **What `oauth_MakeHeader` makes is a field**, for all keys. -/
theorem SignedBy.line {hmac : Bytes → Bytes → Bytes} {cfg : Config} {url : URLInfo} {oauth : OAuthInfo}
    {line : Bytes} (signed : SignedBy hmac cfg url oauth line) : SignedLine line := by
  obtain ⟨timestamp, first, second, made⟩ := signed
  obtain ⟨base, -, rfl⟩ := Option.map_eq_some_iff.mp made
  have written := quoteFields_text (writtenParams_plain timestamp (generateHmac hmac base oauth) oauth
    (makeNonce_unreserved first second))
  have scheme : authScheme = Flagged.authorization.name ++ 58 :: ascii " OAuth " := rfl
  rw [headerText_eq, scheme, List.append_assoc, List.cons_append]
  refine ⟨_, ?_, rfl⟩
  refine List.forall_mem_append.mpr ⟨forall_listed (by decide +kernel), List.forall_mem_append.mpr
    ⟨forall_listed (by decide +kernel), List.forall_mem_cons.mpr ⟨by decide, ?_⟩⟩⟩
  rw [List.nil_append]
  exact List.forall_mem_cons.mpr ⟨by decide, written⟩

/-! ### What a server is told -/

/-- **What a request tells a server** of the options: each of them, and nothing else under a name without a
flag. -/
structure Conveys (hmac : Bytes → Bytes → Bytes) (options : List HeaderOption) (others : Options) (ix : Nat)
    (url : URLInfo) (r : Request) : Prop where
  verb : r.verb =
    if others.verb = [] then if others.file.isNone then ascii "GET" else ascii "POST" else others.verb
  target : r.target = url.path
  body : r.body = others.file.getD []
  host : ¬ (HeaderOptions.read options).Gives .host →
    ⟨Flagged.host.name, 32 :: url.hostHeader⟩ ∈ r.fields
  header : ∀ val, HeaderOption.header val ∈ options → fieldOf val ∈ r.fields
  credentials : ∀ arg, HeaderOption.basic arg ∈ options → ∃ text,
    ⟨Flagged.authorization.name, ascii " Basic " ++ text⟩ ∈ r.fields ∧ base64decode text = (arg, (arg.length : Int))
  type : givenType options ≠ [] → ⟨Flagged.contentType.name, 32 :: givenType options⟩ ∈ r.fields
  signature : ∀ oauth ∈ (HeaderOptions.read options).oauth, ∃ line,
    SignedBy hmac (configOf options others ix) url oauth line ∧ fieldOf line ∈ r.fields
  close : (HeaderOptions.read options).keepAlive ≠ keepAliveAlways →
    ¬ (HeaderOptions.read options).Gives .connection →
      ⟨Flagged.connection.name, ascii " close"⟩ ∈ r.fields
  only : ∀ f ∈ r.fields, (∃ m : Flagged, f.name = m.name) ∨
    ∃ val, HeaderOption.header val ∈ options ∧ f = fieldOf val

section Telling

variable {hmac : Bytes → Bytes → Bytes} {options : List HeaderOption} {others : Options} {ix : Nat}
variable {url : URLInfo} {authHdr : Bytes}

/-- The fields of a request: those that are generated, and those of the header lines. -/
theorem mem_fields {f : Field} : f ∈ (requestOf (configOf options others ix) url authHdr).fields ↔
    (∃ m, generates (configOf options others ix) m = true ∧
      f = fieldOf (generatedLine (configOf options others ix) url authHdr m)) ∨
      ∃ val ∈ (HeaderOptions.read options).headers, f = fieldOf val := by
  have all (m : Flagged) : m ∈ order := by cases m <;> decide
  show f ∈ (headerLines (configOf options others ix) url authHdr).map fieldOf ↔ _
  rw [headerLines, List.map_append, List.mem_append, generatedLines, List.map_map]
  simp only [List.mem_map, List.mem_filter, all, true_and, Function.comp]
  show _ ∨ (∃ val ∈ (HeaderOptions.read options).headers, _) ↔ _
  simp only [eq_comm]

/-- A header that is due and not given is generated. -/
theorem generates_due (proper : ∀ option ∈ options, option.Proper) {m : Flagged}
    (needed : due (configOf options others ix) m = true) (missing : ¬ (HeaderOptions.read options).Gives m) :
    generates (configOf options others ix) m = true := by
  refine (generates_iff (configured options others ix) m).mpr ⟨needed, .inr ⟨missing, ?_⟩⟩
  rintro ⟨val, member, called⟩
  obtain ⟨⟨f, -, rfl⟩, -, -⟩ := properLine_read proper val member
  exact Flagged.called_free called (by simp)

/-- **What a request says** is what the options do. -/
theorem conveys_requestOf (proper : ∀ option ∈ options, option.Proper)
    (host_text : ∀ b ∈ url.hostHeader, isText b = true)
    (signed : ∀ oauth ∈ (HeaderOptions.read options).oauth,
      SignedBy hmac (configOf options others ix) url oauth authHdr) :
    Conveys hmac options others ix url (requestOf (configOf options others ix) url authHdr) where
  verb := rfl
  target := rfl
  body := rfl
  host := by
    intro missing
    refine mem_fields.mpr (.inl ⟨.host, generates_due proper rfl missing, ?_⟩)
    exact (fieldOf_line Flagged.host.name_token.2 (32 :: url.hostHeader)).symm
  header := by
    intro val member
    exact mem_fields.mpr (.inr ⟨val, (mem_read_headers options).mpr (.inl ⟨_, member, rfl⟩), rfl⟩)
  credentials := by
    intro arg member
    refine ⟨base64encode arg, mem_fields.mpr (.inr ⟨_, (mem_read_headers options).mpr
      (.inl ⟨_, member, rfl⟩), ?_⟩), ?_⟩
    · rw [basic_line, fieldOf_line Flagged.authorization.name_token.2]
    · have decoded := base64decode_text arg [] (by simp)
      rwa [List.append_nil] at decoded
  type := by
    intro some_type
    refine mem_fields.mpr (.inr ⟨_, (mem_read_headers options).mpr (.inr ⟨some_type, rfl⟩), ?_⟩)
    rw [type_line, fieldOf_line Flagged.contentType.name_token.2]
  signature := by
    intro oauth member
    have generated : generates (configOf options others ix) .authorization = true := by
      refine (generates_iff (configured options others ix) .authorization).mpr ⟨?_, .inl rfl⟩
      exact Option.isSome_iff_exists.mpr ⟨oauth, member⟩
    exact ⟨authHdr, signed oauth member, mem_fields.mpr (.inl ⟨.authorization, generated, rfl⟩)⟩
  close := by
    intro limited missing
    have needed : due (configOf options others ix) .connection = true := by
      show ((HeaderOptions.read options).keepAlive != keepAliveAlways) = true
      simpa using limited
    refine mem_fields.mpr (.inl ⟨.connection, generates_due proper needed missing, ?_⟩)
    exact (fieldOf_line Flagged.connection.name_token.2 (ascii " close")).symm
  only := by
    intro f member
    rcases mem_fields.mp member with ⟨m, generated, rfl⟩ | ⟨val, there, rfl⟩
    · refine .inl ⟨m, (fieldOf_generated host_text (fun oauth => ?_) generated).2⟩
      obtain ⟨info, found⟩ := Option.isSome_iff_exists.mp oauth
      exact (signed info found).line
    · rcases (mem_read_headers options).mp there with ⟨option, listed, line⟩ | ⟨-, rfl⟩
      · cases option with
        | header val =>
          obtain rfl := Option.some.inj line
          exact .inr ⟨val, listed, rfl⟩
        | basic arg =>
          obtain rfl := Option.some.inj line
          refine .inl ⟨.authorization, ?_⟩
          rw [basic_line, fieldOf_line Flagged.authorization.name_token.2]
        | contentType | oauth | keepAlive => cases line
      · refine .inl ⟨.contentType, ?_⟩
        rw [type_line, fieldOf_line Flagged.contentType.name_token.2]

end Telling

/-- A header line, credentials, and connections that are closed. -/
def threeOptions : List HeaderOption :=
  [.header (ascii "Accept: */*"), .basic (ascii "user:pass"), .keepAlive 0]

/-- The address that every name has. -/
def loopback (_ : Bytes) : List Address := [.inet 0 0x7f000001]

/-- One URL, and nothing else. -/
def oneUrl : Options where
  urls := [{ System.localUrl "/" false with pathOnly := ascii "/" }]
  some_url := List.cons_ne_nil _ _

end Apib
