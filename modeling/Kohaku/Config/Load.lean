import Kohaku.Config.BaseUrl

/-!
# Loading the configuration

`Config::load` of `config.rs` in a build without the `dev` feature: the settings a command needs are
read one by one, each broken rule is noted, and the command runs only if there is none. The text
form of addresses and the base64 decoder are those of the libraries and enter as parameters. What is
reported is exactly what breaks its rule (`config_report_exact`).
-/

namespace Kohaku

open Limits

/-- A variable of the environment. -/
inductive Variable
  | baseUrl
  | trustedProxies
  | secret
  | smtpHost
  | smtpPort
  | smtpTls
  | smtpUsername
  | smtpPassword
  | smtpFrom
  | publicMailPerHour
  deriving DecidableEq, Repr

/-- The name of a variable in the environment. -/
def Variable.name : Variable → Str
  | .baseUrl => "KOHAKU_BASE_URL".toList
  | .trustedProxies => "KOHAKU_TRUSTED_PROXIES".toList
  | .secret => "KOHAKU_SECRET".toList
  | .smtpHost => "KOHAKU_SMTP_HOST".toList
  | .smtpPort => "KOHAKU_SMTP_PORT".toList
  | .smtpTls => "KOHAKU_SMTP_TLS".toList
  | .smtpUsername => "KOHAKU_SMTP_USERNAME".toList
  | .smtpPassword => "KOHAKU_SMTP_PASSWORD".toList
  | .smtpFrom => "KOHAKU_SMTP_FROM".toList
  | .publicMailPerHour => "KOHAKU_PUBLIC_MAIL_PER_HOUR".toList

/-- `DEFAULT_PUBLIC_MAIL_PER_HOUR`. -/
def defaultPublicMailPerHour : Nat := 60

/-- The placeholders that `.env.example` ships. -/
def Variable.placeholder : Variable → Option Str
  | .baseUrl => some "https://bugs.example.com".toList
  | .smtpHost => some "smtp.example.com".toList
  | .smtpUsername => some "your-smtp-username".toList
  | .smtpFrom => some "bugs@example.com".toList
  | _ => none

/-- A command, without its arguments. -/
inductive Command
  | serve
  | healthcheck
  | backup
  | restore
  | restoreList
  | adminUnlock
  | adminResetPassword
  | projectCreate
  deriving DecidableEq, Repr

/-- How the mail server is spoken to. -/
inductive SmtpTls
  /-- TLS from the first byte. -/
  | implicit
  /-- STARTTLS before authentication and any mail data. -/
  | starttls
  deriving DecidableEq, Repr

/-- How mail is sent. -/
structure SmtpConfig where
  host : DnsName
  port : UInt16
  tls : SmtpTls
  username : Str
  password : Str

/-- What `serve` runs with. -/
structure ServeConfig where
  baseUrl : BaseUrl
  trustedProxies : TrustedProxies
  secret : Bytes
  sender : Str
  transport : SmtpConfig
  publicMailPerHour : Nat

/-- What a command that only needs the secret runs with. -/
structure SecretConfig where
  secret : Bytes

/-- What a command that prints or checks addresses runs with. -/
structure LinkConfig where
  secret : Bytes
  baseUrl : BaseUrl

/-- The settings a command needs. -/
inductive Config
  | serve (config : ServeConfig)
  | secret (config : SecretConfig)
  | links (config : LinkConfig)
  | none

namespace Environment

/-! ## The parsers -/

/-- `INSTANCE_SECRET_MIN_BYTES`. -/
def instanceSecretMinBytes : Nat := 32

/-- The text for a secret that is refused. -/
def instanceSecretRule : Str :=
  ("must be standard base64 with = padding (RFC 4648 §4) on one line, without spaces, " ++
    "decoding to at least 32 random bytes; generate one with " ++
    "`head -c 32 /dev/urandom | base64`").toList

/-- `base64` is the decoder of standard base64 with padding. -/
def parseInstanceSecret (base64 : Str → Option Bytes) (text : Str) : Except Str Bytes :=
  match base64 text with
  | some bytes =>
    if bytes.length < instanceSecretMinBytes then .error instanceSecretRule else .ok bytes
  | none => .error instanceSecretRule

/-- `parse_smtp_host`. -/
def parseSmtpHost (text : Str) : Except Str DnsName := DnsName.parse text

/-- The text for a mail port that is refused. -/
def smtpPortRule : Str :=
  "must be a port number 1-65535 without sign, spaces or leading zeros".toList

/-- `parse_smtp_port`. -/
def parseSmtpPort (text : Str) : Except Str UInt16 :=
  match parsePort text with
  | some port => .ok port
  | none => .error smtpPortRule

/-- The text for a mode that is refused. -/
def smtpTlsRule : Str :=
  ("must be `implicit` (TLS from the first byte, usually port 465) or `starttls` " ++
    "(usually port 587); mail is never sent without TLS").toList

/-- `parse_smtp_tls`. -/
def parseSmtpTls (text : Str) : Except Str SmtpTls :=
  if text = "implicit".toList then .ok .implicit
  else if text = "starttls".toList then .ok .starttls
  else .error smtpTlsRule

/-- The text for a user name or a password that is refused. -/
def noControlCharacters : Str := "must not contain control characters".toList

/-- `parse_smtp_username`. -/
def parseSmtpUsername (text : Str) : Except Str Str :=
  if text.any isControl then .error noControlCharacters else .ok text

/-- `parse_smtp_password`, with the rule of the user name. -/
def parseSmtpPassword (text : Str) : Except Str Str := parseSmtpUsername text

/-- The text for a sender that is refused. -/
def senderRule : Str :=
  ("must be one bare address local@domain of at most 254 characters: a dot-atom local part " ++
    "(letters, digits and !#$%&'*+/=?^_`\x7b|\x7d~- separated by single dots), a domain under " ++
    "the DNS name rules, no display name or angle brackets").toList

/-- A character of an atom. -/
def isAtext (c : Char) : Bool := c.isAlphanum || "!#$%&'*+/=?^_`\x7b|\x7d~-".toList.contains c

/-- Atoms between single dots. -/
def isDotAtom (text : Str) : Bool :=
  !text.isEmpty && (text.splitOn '.').all fun atom => !atom.isEmpty && atom.all isAtext

/-- `parse_sender`: one bare address. -/
def parseSender (text : Str) : Except Str Str :=
  if (asBytes text).length > 254 then .error senderRule
  else
    match splitOnce '@' text with
    | none => .error senderRule
    | some (name, domain) =>
      if !isDotAtom name || !isDnsName domain then .error senderRule else .ok text

/-- The text for a mail budget that is refused. -/
def publicMailRule : Str :=
  ("must be a whole number 1-4294967295 without sign, spaces or leading zeros " ++
    "(unset means 60)").toList

/-- `parse_public_mail_per_hour`: a positive `u32`. -/
def parsePublicMailPerHour (text : Str) : Except Str Nat :=
  match (parseDecimal text).filter fun n => 1 ≤ n with
  | some n => .ok n
  | none => .error publicMailRule

/-! ## The reader -/

/-- One broken rule. -/
structure Problem where
  var : Variable
  rule : Str
  deriving DecidableEq

/-- The text for a variable that is not set. -/
def missing : Str := "is required and has no default; set it (see the README)".toList

/-- The text for a value that is no text. -/
def notUtf8 : Str := "is not valid UTF-8".toList

/-- The text for a value that was left as in the example file. -/
def unchangedExample : Str := "still has the example value from .env.example; set your own".toList

/-- The environment: the bytes of each variable that is set. -/
abbrev Env := Str → Option Bytes

/-- A computation that notes problems. -/
abbrev Reader (α : Type) := StateM (List Problem) α

/-- `problem`: it is noted, and reading goes on. -/
def problem (v : Variable) (rule : Str) : Reader Unit := modify (· ++ [⟨v, rule⟩])

/-- The UTF-8 value, empty included, or `none` when unset. -/
def raw (env : Env) (v : Variable) : Reader (Option Str) :=
  match env v.name with
  | none => pure none
  | some value =>
    match fromUtf8 value with
    | some value => pure (some value)
    | none => do
      problem v notUtf8
      pure none

/-- `parsed`: the value, or the rule that it breaks is noted. -/
def parsed {α : Type} (v : Variable) (value : Str) (parse : Str → Except Str α) :
    Reader (Option α) :=
  match parse value with
  | .ok a => pure (some a)
  | .error rule => do
    problem v rule
    pure none

/-- A required setting: unset or empty counts as missing. -/
def required {α : Type} (env : Env) (v : Variable) (parse : Str → Except Str α) :
    Reader (Option α) := do
  let isSet := (env v.name).isSome
  match ← raw env v with
  | some value =>
    if !value.isEmpty then parsed v value parse
    else do
      problem v missing
      pure none
  | none =>
    -- when it is set but not UTF-8 that was noted already
    if !isSet then do
      problem v missing
      pure none
    else pure none

/-- `refuse_placeholder`: a value that was left as in the example file is noted. -/
def refusePlaceholder (env : Env) (v : Variable) : Reader Bool := do
  let unchanged := v.placeholder.any fun text => env v.name = some (asBytes text)
  if unchanged then
    problem v unchangedExample
  return unchanged

/-- A required setting that must not equal its placeholder. -/
def requiredNotPlaceholder {α : Type} (env : Env) (v : Variable) (parse : Str → Except Str α) :
    Reader (Option α) := do
  if ← refusePlaceholder env v then return none
  required env v parse

/-- `problems_for`: a problem of the variable has been noted. -/
def problemsFor (problems : List Problem) (v : Variable) : Bool := problems.any fun p => p.var = v

variable (ip : IpText) (base64 : Str → Option Bytes)

/-- `secret`: the instance secret. -/
def secretValue (env : Env) : Reader (Option Bytes) :=
  required env .secret (parseInstanceSecret base64)

/-- `secret_only`: what a command that needs no more than the secret reads. -/
def secretOnly (env : Env) : Reader (Option SecretConfig) := do
  let secret ← secretValue base64 env
  return secret.map fun secret => ⟨secret⟩

/-- `links`: what a command that needs the base URL too reads. -/
def linkConfig (env : Env) : Reader (Option LinkConfig) := do
  let secret ← secretValue base64 env
  let baseUrl ← requiredNotPlaceholder env .baseUrl parseBaseUrl
  return secret.bind fun secret => baseUrl.bind fun baseUrl => some ⟨secret, baseUrl⟩

/-- `smtp`: all variables of the mail server are read before one that is missing counts. -/
def smtp (env : Env) : Reader (Option SmtpConfig) := do
  let host ← requiredNotPlaceholder env .smtpHost parseSmtpHost
  let port ← required env .smtpPort parseSmtpPort
  let tls ← required env .smtpTls parseSmtpTls
  let username ← requiredNotPlaceholder env .smtpUsername parseSmtpUsername
  let password ← required env .smtpPassword parseSmtpPassword
  return host.bind fun host => port.bind fun port => tls.bind fun tls =>
    username.bind fun username => password.bind fun password =>
    some ⟨host, port, tls, username, password⟩

/-- The mail budget, with its default when it is not set. -/
def publicMail (env : Env) : Reader (Option Nat) := do
  match ← raw env .publicMailPerHour with
  | none =>
    return if problemsFor (← get) .publicMailPerHour then none else some defaultPublicMailPerHour
  | some value => parsed .publicMailPerHour value parsePublicMailPerHour

/-- `serve`: what the server reads, in the order of the source. -/
def serveConfig (env : Env) : Reader (Option ServeConfig) := do
  let baseUrl ← requiredNotPlaceholder env .baseUrl parseBaseUrl
  let trustedProxies ← required env .trustedProxies (parseTrustedProxies ip)
  let secret ← secretValue base64 env
  let sender ← requiredNotPlaceholder env .smtpFrom parseSender
  let transport ← smtp env
  let publicMailPerHour ← publicMail env
  return baseUrl.bind fun baseUrl => trustedProxies.bind fun trustedProxies =>
    secret.bind fun secret => sender.bind fun sender => transport.bind fun transport =>
    publicMailPerHour.bind fun publicMailPerHour =>
    some ⟨baseUrl, trustedProxies, secret, sender, transport, publicMailPerHour⟩

/-- What the command reads. -/
def read (env : Env) : Command → Reader (Option Config)
  | .serve => Option.map Config.serve <$> serveConfig ip base64 env
  | .backup | .adminUnlock => Option.map Config.secret <$> secretOnly base64 env
  | .adminResetPassword | .projectCreate => Option.map Config.links <$> linkConfig base64 env
  | .restore | .restoreList | .healthcheck => pure (some .none)

/-! ## Values -/

section Values
variable {α : Type} {ip : IpText} {base64 : Str → Option Bytes} {env : Env} {v : Variable}

/-- A value or the rule that it breaks, noted. -/
def report (v : Variable) : Except Str α → Reader (Option α)
  | .ok a => pure (some a)
  | .error rule => do
    problem v rule
    pure none

/-- The problem of a broken rule. -/
def problems (v : Variable) : Except Str α → List Problem
  | .ok _ => []
  | .error rule => [⟨v, rule⟩]

theorem run_report (v : Variable) (r : Except Str α) (noted : List Problem) :
    (report v r).run noted = (r.toOption, noted ++ problems v r) := by
  cases r with
  | ok a => exact congrArg (Prod.mk (some a)) (List.append_nil noted).symm
  | error rule => rfl

/-- The value of a required setting. -/
def requiredValue (env : Env) (v : Variable) (parse : Str → Except Str α) : Except Str α :=
  match env v.name with
  | none => .error missing
  | some bytes =>
    match fromUtf8 bytes with
    | none => .error notUtf8
    | some text => if text.isEmpty then .error missing else parse text

theorem required_eq (env : Env) (v : Variable) (parse : Str → Except Str α) :
    required env v parse = report v (requiredValue env v parse) := by
  unfold required raw requiredValue
  cases hset : env v.name with
  | none => rfl
  | some bytes =>
    dsimp only
    cases hutf8 : fromUtf8 bytes with
    | none => rfl
    | some text =>
      cases hempty : text.isEmpty with
      | true =>
        simp only [hempty, pure_bind]
        rfl
      | false =>
        simp only [hempty, pure_bind]
        unfold parsed report
        cases parse text <;> rfl

/-- The value of a required variable that must differ from the example file. -/
def notPlaceholderValue (env : Env) (v : Variable) (parse : Str → Except Str α) : Except Str α :=
  if v.placeholder.any fun text => env v.name = some (asBytes text) then .error unchangedExample
  else requiredValue env v parse

theorem requiredNotPlaceholder_eq (env : Env) (v : Variable) (parse : Str → Except Str α) :
    requiredNotPlaceholder env v parse = report v (notPlaceholderValue env v parse) := by
  unfold requiredNotPlaceholder refusePlaceholder notPlaceholderValue
  cases h : v.placeholder.any fun text => env v.name = some (asBytes text) with
  | true => simp [report]
  | false => simp [required_eq]

/-- The value of the optional setting. -/
def publicMailValue (env : Env) : Except Str Nat :=
  match env Variable.publicMailPerHour.name with
  | none => .ok defaultPublicMailPerHour
  | some bytes =>
    match fromUtf8 bytes with
    | none => .error notUtf8
    | some text => parsePublicMailPerHour text

/-- The optional setting is told from a refused one by the problems noted, so there must be none of
it before. -/
theorem run_publicMail (env : Env) {noted : List Problem}
    (h : problemsFor noted .publicMailPerHour = false) : (publicMail env).run noted =
      ((publicMailValue env).toOption, noted ++ problems .publicMailPerHour
        (publicMailValue env)) := by
  unfold publicMail publicMailValue raw
  cases env Variable.publicMailPerHour.name with
  | none =>
    simp only [pure_bind, StateT.run_bind, StateT.run_get]
    change (if problemsFor noted _ then _ else _, noted) = _
    rw [h, problems, List.append_nil]
    rfl
  | some bytes =>
    dsimp only
    cases fromUtf8 bytes with
    | none =>
      have hnoted : problemsFor (noted ++ [⟨.publicMailPerHour, notUtf8⟩]) .publicMailPerHour =
          true := by
        simp [problemsFor]
      change (if problemsFor (noted ++ [⟨.publicMailPerHour, notUtf8⟩]) _ then _ else _, _) = _
      rw [hnoted]
      rfl
    | some text =>
      simp only [pure_bind]
      unfold parsed
      cases parsePublicMailPerHour text with
      | ok n => exact congrArg (Prod.mk (some n)) (List.append_nil noted).symm
      | error rule => rfl

end Values

/-! ## The rules -/

section Rules
variable {α : Type} {ip : IpText} {base64 : Str → Option Bytes} {env : Env}

/-- The rule that a value breaks. -/
def errorOf : Except Str α → Option Str
  | .ok _ => none
  | .error rule => some rule

theorem problems_eq (v : Variable) (r : Except Str α) :
    problems v r = ((errorOf r).map (Problem.mk v)).toList := by
  cases r <;> rfl

theorem isSome_toOption (r : Except Str α) : r.toOption.isSome = (errorOf r).isNone := by
  cases r <;> rfl

variable (ip base64 env) in
/-- The rule that a variable breaks, if any. -/
def brokenRule : Variable → Option Str
  | .baseUrl => errorOf (notPlaceholderValue env .baseUrl parseBaseUrl)
  | .trustedProxies => errorOf (requiredValue env .trustedProxies (parseTrustedProxies ip))
  | .secret => errorOf (requiredValue env .secret (parseInstanceSecret base64))
  | .smtpHost => errorOf (notPlaceholderValue env .smtpHost parseSmtpHost)
  | .smtpPort => errorOf (requiredValue env .smtpPort parseSmtpPort)
  | .smtpTls => errorOf (requiredValue env .smtpTls parseSmtpTls)
  | .smtpUsername => errorOf (notPlaceholderValue env .smtpUsername parseSmtpUsername)
  | .smtpPassword => errorOf (requiredValue env .smtpPassword parseSmtpPassword)
  | .smtpFrom => errorOf (notPlaceholderValue env .smtpFrom parseSender)
  | .publicMailPerHour => errorOf (publicMailValue env)

variable (ip base64 env) in
/-- The problem of a variable, if it has one. -/
def problemOf (v : Variable) : Option Problem := (brokenRule ip base64 env v).map (Problem.mk v)

/-- The variables that the SMTP connection needs, in the order they are read. -/
def smtpNeeds : List Variable := [.smtpHost, .smtpPort, .smtpTls, .smtpUsername, .smtpPassword]

theorem isSome_bind_of {β : Type} {x : Option α} {f : α → Option β} {b : Bool}
    (h : ∀ a, (f a).isSome = b) : (x.bind f).isSome = (x.isSome && b) := by
  cases x with
  | none => rfl
  | some a => exact h a

theorem isSome_bind_some {β : Type} {x : Option α} {g : α → β} :
    (x.bind fun a => some (g a)).isSome = x.isSome := by
  cases x <;> rfl

variable (ip base64 env) in
/-- What a reader does that reads the variables: it notes their problems in order, and has a result
if there is none and `before` holds, which says that what it was given is there. -/
def Reads (before : Bool) (m : Reader (Option α)) (vars : List Variable) : Prop :=
  ∀ noted : List Problem, problemsFor noted .publicMailPerHour = false → ∃ result,
    m.run noted = (result, noted ++ vars.filterMap (problemOf ip base64 env)) ∧
      result.isSome = (before && vars.all fun v => (brokenRule ip base64 env v).isNone)

theorem reads_pure {before : Bool} {result : Option α} (h : result.isSome = before) :
    Reads ip base64 env before (pure result) [] := by
  intro noted _
  refine ⟨result, ?_, ?_⟩
  · rw [List.filterMap_nil, List.append_nil]
    rfl
  · rw [h, List.all_nil, Bool.and_true]

theorem reads_report {v : Variable} {r : Except Str α}
    (h : brokenRule ip base64 env v = errorOf r) : Reads ip base64 env true (report v r) [v] := by
  intro noted _
  refine ⟨r.toOption, ?_, ?_⟩
  · rw [run_report, problems_eq, List.filterMap_cons, List.filterMap_nil, problemOf, h]
    cases errorOf r <;> rfl
  · rw [isSome_toOption, List.all_cons, List.all_nil, h, Bool.true_and, Bool.and_true]

theorem reads_publicMail : Reads ip base64 env true (publicMail env) [.publicMailPerHour] := by
  intro noted hnoted
  have hreads : Reads ip base64 env true (report .publicMailPerHour (publicMailValue env))
      [.publicMailPerHour] :=
    reads_report rfl
  obtain ⟨result, hrun, hsome⟩ := hreads noted hnoted
  refine ⟨result, ?_, hsome⟩
  rw [run_publicMail env hnoted, ← hrun, run_report]

theorem var_of_problemOf {v : Variable} {p : Problem} (h : problemOf ip base64 env v = some p) :
    p.var = v := by
  obtain ⟨rule, -, rfl⟩ := Option.map_eq_some_iff.mp h
  rfl

/-- Reading one after the other. -/
theorem Reads.bind {β : Type} {before : Bool} {m : Reader (Option α)}
    {f : Option α → Reader (Option β)}
    {vars vars' : List Variable} (hm : Reads ip base64 env true m vars)
    (hvars : .publicMailPerHour ∉ vars)
    (hf : ∀ a : Option α, Reads ip base64 env (before && a.isSome) (f a) vars') :
    Reads ip base64 env before (m >>= f) (vars ++ vars') := by
  intro noted hnoted
  obtain ⟨a, hrun, hsome⟩ := hm noted hnoted
  have hnoted' : problemsFor (noted ++ vars.filterMap (problemOf ip base64 env))
      .publicMailPerHour = false := by
    rw [problemsFor, List.any_append, show noted.any _ = false from hnoted, Bool.false_or,
      List.any_eq_false]
    intro p hp hvar
    obtain ⟨v, hv, hproblem⟩ := List.mem_filterMap.mp hp
    have hsame : p.var = .publicMailPerHour := of_decide_eq_true hvar
    rw [var_of_problemOf hproblem] at hsame
    exact hvars (hsame ▸ hv)
  obtain ⟨result, hrun', hsome'⟩ := hf a _ hnoted'
  refine ⟨result, ?_, ?_⟩
  · rw [StateT.run_bind, hrun, List.filterMap_append, ← List.append_assoc, ← hrun']
    rfl
  · rw [hsome', hsome, List.all_append, Bool.true_and, Bool.and_assoc]

/-- A reader whose result is made from that of another. -/
theorem Reads.bind_pure {β : Type} {before : Bool} {m : Reader (Option α)} {g : Option α → Option β}
    {vars : List Variable} (hm : Reads ip base64 env true m vars)
    (hg : ∀ a : Option α, (g a).isSome = (before && a.isSome)) :
    Reads ip base64 env before (m >>= fun a => pure (g a)) vars := by
  intro noted hnoted
  obtain ⟨a, hrun, hsome⟩ := hm noted hnoted
  refine ⟨g a, ?_, ?_⟩
  · rw [StateT.run_bind, hrun]
    rfl
  · rw [hg, hsome, Bool.true_and]

theorem reads_secretOnly : Reads ip base64 env true (secretOnly base64 env) [.secret] := by
  rw [secretOnly, secretValue, required_eq]
  refine (reads_report rfl).bind_pure fun secret => ?_
  rw [Option.isSome_map, Bool.true_and]

theorem reads_linkConfig :
    Reads ip base64 env true (linkConfig base64 env) [.secret, .baseUrl] := by
  rw [linkConfig, secretValue, required_eq, requiredNotPlaceholder_eq]
  refine (reads_report rfl).bind (by decide) fun secret => ?_
  refine (reads_report rfl).bind_pure fun baseUrl => ?_
  exact isSome_bind_of fun _ => isSome_bind_some

theorem reads_smtp : Reads ip base64 env true (smtp env) smtpNeeds := by
  simp only [smtp, required_eq, requiredNotPlaceholder_eq]
  refine (reads_report rfl).bind (by decide) fun host => ?_
  refine (reads_report rfl).bind (by decide) fun port => ?_
  refine (reads_report rfl).bind (by decide) fun tls => ?_
  refine (reads_report rfl).bind (by decide) fun username => ?_
  refine (reads_report rfl).bind_pure fun password => ?_
  rw [Bool.and_assoc, Bool.and_assoc, Bool.and_assoc]
  exact isSome_bind_of fun _ => isSome_bind_of fun _ => isSome_bind_of fun _ =>
    isSome_bind_of fun _ =>
    isSome_bind_some

/-- The variables that `serve` needs, in the order they are read. -/
def serveNeeds : List Variable :=
  [.baseUrl, .trustedProxies, .secret, .smtpFrom] ++ (smtpNeeds ++ [.publicMailPerHour])

theorem reads_serveConfig : Reads ip base64 env true (serveConfig ip base64 env) serveNeeds := by
  simp only [serveConfig, secretValue, required_eq, requiredNotPlaceholder_eq]
  refine (reads_report rfl).bind (by decide) fun baseUrl => ?_
  refine (reads_report rfl).bind (by decide) fun trustedProxies => ?_
  refine (reads_report rfl).bind (by decide) fun secret => ?_
  refine (reads_report rfl).bind (by decide) fun sender => ?_
  refine reads_smtp.bind (by decide) fun transport => ?_
  refine reads_publicMail.bind_pure fun publicMailPerHour => ?_
  rw [Bool.and_assoc, Bool.and_assoc, Bool.and_assoc, Bool.and_assoc]
  exact isSome_bind_of fun _ => isSome_bind_of fun _ => isSome_bind_of fun _ =>
    isSome_bind_of fun _ =>
    isSome_bind_of fun _ => isSome_bind_some

/-- The variables that a command needs, in the order they are read. -/
def needs : Command → List Variable
  | .serve => serveNeeds
  | .backup | .adminUnlock => [.secret]
  | .adminResetPassword | .projectCreate => [.secret, .baseUrl]
  | .restore | .restoreList | .healthcheck => []

theorem nodup_needs (command : Command) : (needs command).Nodup := by
  cases command <;> decide

theorem Reads.map {β : Type} {m : Reader (Option α)} {g : α → β} {vars : List Variable}
    (hm : Reads ip base64 env true m vars) :
    Reads ip base64 env true (Option.map g <$> m) vars := by
  rw [map_eq_pure_bind]
  refine hm.bind_pure fun a => ?_
  rw [Option.isSome_map, Bool.true_and]

theorem reads_read (command : Command) :
    Reads ip base64 env true (read ip base64 env command) (needs command) := by
  cases command with
  | serve => exact reads_serveConfig.map
  | backup => exact reads_secretOnly.map
  | adminUnlock => exact reads_secretOnly.map
  | adminResetPassword => exact reads_linkConfig.map
  | projectCreate => exact reads_linkConfig.map
  | restore => exact reads_pure rfl
  | restoreList => exact reads_pure rfl
  | healthcheck => exact reads_pure rfl

/-! ## What the rules ask -/

/-- All but the number of public mails per hour, which has a default. -/
def isRequired : Variable → Bool
  | .publicMailPerHour => false
  | _ => true

variable (ip base64) in
/-- Whether the parser of the variable accepts the text. -/
def accepts : Variable → Str → Bool
  | .baseUrl, text => (parseBaseUrl text).isOk
  | .trustedProxies, text => (parseTrustedProxies ip text).isOk
  | .secret, text => (parseInstanceSecret base64 text).isOk
  | .smtpHost, text => (parseSmtpHost text).isOk
  | .smtpPort, text => (parseSmtpPort text).isOk
  | .smtpTls, text => (parseSmtpTls text).isOk
  | .smtpUsername, text => (parseSmtpUsername text).isOk
  | .smtpPassword, text => (parseSmtpPassword text).isOk
  | .smtpFrom, text => (parseSender text).isOk
  | .publicMailPerHour, text => (parsePublicMailPerHour text).isOk

variable (ip base64 env) in
/-- The rule of a variable: unless it may be unset, it is set to a text that is not empty. Where it
is set, it is UTF-8, other than the placeholder, and its parser accepts it. -/
def Satisfies (v : Variable) : Prop :=
  match env v.name with
  | none => isRequired v = false
  | some bytes => ∃ text, fromUtf8 bytes = some text ∧ (isRequired v = true → text ≠ []) ∧
      v.placeholder ≠ some text ∧ accepts ip base64 v text = true

theorem errorOf_eq_none_iff {r : Except Str α} : errorOf r = none ↔ r.isOk = true := by
  cases r with
  | ok a => exact iff_of_true rfl rfl
  | error rule => exact iff_of_false (Option.some_ne_none rule) Bool.false_ne_true

theorem fromUtf8_eq_some_iff {bytes : Bytes} {text : Str} :
    fromUtf8 bytes = some text ↔ bytes = asBytes text := by
  constructor
  · intro h
    exact asBytes_of_fromUtf8 h
  · intro h
    rw [h, fromUtf8_asBytes]

/-- The placeholder is compared as bytes, which is the comparison of the texts. -/
theorem isPlaceholder_iff {placeholder : Option Str} {bytes : Bytes} :
    (placeholder.any fun text => some bytes = some (asBytes text)) = true ↔
      ∃ text, placeholder = some text ∧ fromUtf8 bytes = some text := by
  rw [Option.any_eq_true]
  refine exists_congr fun text => and_congr_right fun _ => ?_
  rw [decide_eq_true_iff, Option.some.injEq, fromUtf8_eq_some_iff]

theorem notPlaceholderValue_of_none {v : Variable} (h : v.placeholder = none)
    (parse : Str → Except Str α) : notPlaceholderValue env v parse = requiredValue env v parse := by
  rw [notPlaceholderValue, h]
  rfl

theorem notPlaceholderValue_iff {v : Variable} {parse : Str → Except Str α}
    (hrequired : isRequired v = true)
    (hparse : ∀ text, accepts ip base64 v text = (parse text).isOk) :
    errorOf (notPlaceholderValue env v parse) = none ↔ Satisfies ip base64 env v := by
  unfold notPlaceholderValue requiredValue Satisfies
  cases hset : env v.name with
  | none => simp [errorOf, hrequired]
  | some bytes =>
    dsimp only
    cases hutf8 : fromUtf8 bytes with
    | none =>
      have hnot : ¬(v.placeholder.any fun text => some bytes = some (asBytes text)) = true := by
        rw [isPlaceholder_iff, hutf8]
        simp
      rw [if_neg hnot]
      simp [errorOf]
    | some text =>
      have hplaceholder : (v.placeholder.any fun text => some bytes = some (asBytes text)) = true ↔
          v.placeholder = some text := by
        rw [isPlaceholder_iff, hutf8]
        simp
      by_cases hsame : v.placeholder = some text
      · rw [if_pos (hplaceholder.mpr hsame)]
        simp [errorOf, hsame]
      · rw [if_neg fun h => hsame (hplaceholder.mp h)]
        cases text with
        | nil => simp [errorOf, hrequired]
        | cons c text => simp [errorOf_eq_none_iff, hsame, hparse]

theorem brokenRule_eq_none_iff (v : Variable) :
    brokenRule ip base64 env v = none ↔ Satisfies ip base64 env v := by
  cases v with
  | baseUrl | smtpHost | smtpUsername | smtpFrom => exact notPlaceholderValue_iff rfl fun _ => rfl
  | trustedProxies | secret | smtpPort | smtpTls | smtpPassword =>
    rw [brokenRule, ← notPlaceholderValue_of_none rfl]
    exact notPlaceholderValue_iff rfl fun _ => rfl
  | publicMailPerHour =>
    unfold brokenRule publicMailValue Satisfies
    cases env Variable.publicMailPerHour.name with
    | none => exact iff_of_true rfl rfl
    | some bytes =>
      dsimp only
      cases fromUtf8 bytes with
      | none => simp [errorOf]
      | some text => simp [errorOf_eq_none_iff, isRequired, Variable.placeholder, accepts]

end Rules

/-! ## What is read -/

section Congruence
variable {α : Type} {ip : IpText} {base64 : Str → Option Bytes} {env env' : Env} {v : Variable}

theorem required_congr (h : env' v.name = env v.name) (parse : Str → Except Str α) :
    required env' v parse = required env v parse := by
  rw [required_eq, required_eq, requiredValue, requiredValue, h]

theorem requiredNotPlaceholder_congr (h : env' v.name = env v.name) (parse : Str → Except Str α) :
    requiredNotPlaceholder env' v parse = requiredNotPlaceholder env v parse := by
  rw [requiredNotPlaceholder_eq, requiredNotPlaceholder_eq, notPlaceholderValue,
    notPlaceholderValue, requiredValue, requiredValue, h]

theorem publicMail_congr (h : env' Variable.publicMailPerHour.name =
    env Variable.publicMailPerHour.name) : publicMail env' = publicMail env := by
  rw [publicMail, publicMail, raw, raw, h]

theorem secretOnly_congr (h : ∀ v ∈ [Variable.secret], env' v.name = env v.name) :
    secretOnly base64 env' = secretOnly base64 env := by
  rw [secretOnly, secretOnly, secretValue, secretValue, required_congr (h _ (by decide))]

theorem linkConfig_congr (h : ∀ v ∈ [Variable.secret, .baseUrl], env' v.name = env v.name) :
    linkConfig base64 env' = linkConfig base64 env := by
  rw [linkConfig, linkConfig, secretValue, secretValue, required_congr (h _ (by decide)),
    requiredNotPlaceholder_congr (h _ (by decide))]

theorem smtp_congr (h : ∀ v ∈ smtpNeeds, env' v.name = env v.name) : smtp env' = smtp env := by
  rw [smtp, smtp, requiredNotPlaceholder_congr (h .smtpHost (by decide)),
    required_congr (h .smtpPort (by decide)), required_congr (h .smtpTls (by decide)),
    requiredNotPlaceholder_congr (h .smtpUsername (by decide)),
    required_congr (h .smtpPassword (by decide))]

theorem serveConfig_congr (h : ∀ v ∈ serveNeeds, env' v.name = env v.name) :
    serveConfig ip base64 env' = serveConfig ip base64 env := by
  have hsmtp : ∀ v ∈ smtpNeeds, env' v.name = env v.name := fun v hv =>
    h v (List.mem_append_right _ (List.mem_append_left _ hv))
  rw [serveConfig, serveConfig, requiredNotPlaceholder_congr (h .baseUrl (by decide)),
    required_congr (h .trustedProxies (by decide)), secretValue, secretValue,
    required_congr (h .secret (by decide)), requiredNotPlaceholder_congr (h .smtpFrom (by decide)),
    smtp_congr hsmtp, publicMail_congr (h .publicMailPerHour (by decide))]

/-- A command reads no variable that it does not need. -/
theorem read_congr (command : Command) (h : ∀ v ∈ needs command, env' v.name = env v.name) :
    read ip base64 env' command = read ip base64 env command := by
  cases command with
  | serve => rw [read, read, serveConfig_congr h]
  | backup | adminUnlock => rw [read, read, secretOnly_congr h]
  | adminResetPassword | projectCreate => rw [read, read, linkConfig_congr h]
  | restore | restoreList | healthcheck => rfl

end Congruence

end Environment

/-! ## The report -/

section Load

open Environment

variable (ip : IpText) (base64 : Str → Option Bytes)

/-- `Config::load`. -/
def Config.load (command : Command) (env : Env) : Except (List Problem) Config :=
  match (read ip base64 env command).run [] with
  | (some config, []) => .ok config
  | (_, problems) => .error problems

/-- The problems of the variables the command needs, in the order they are read. -/
def allProblems (command : Command) (env : Env) : List Problem :=
  (needs command).filterMap (problemOf ip base64 env)

variable {ip base64} {command : Command} {env : Env}

theorem allProblems_eq_nil_iff :
    allProblems ip base64 command env = [] ↔ ∀ v ∈ needs command, Satisfies ip base64 env v := by
  rw [allProblems, List.filterMap_eq_nil_iff]
  refine forall₂_congr fun v _ => ?_
  rw [problemOf, Option.map_eq_none_iff, brokenRule_eq_none_iff]

theorem map_var_filterMap (vars : List Variable) :
    (vars.filterMap (problemOf ip base64 env)).map Problem.var =
      vars.filter fun v => (brokenRule ip base64 env v).isSome := by
  induction vars with
  | nil => rfl
  | cons v vars ih =>
    cases h : brokenRule ip base64 env v with
    | none => simpa [problemOf, h] using ih
    | some rule => simpa [problemOf, h] using ih

/-- The names reported are those of the needed variables that break their rule. -/
theorem names_allProblems : (allProblems ip base64 command env).map (fun p => p.var.name) =
    ((needs command).filter fun v => (brokenRule ip base64 env v).isSome).map Variable.name := by
  rw [← map_var_filterMap, List.map_map]
  rfl

theorem mem_names_iff {name : Str} :
    name ∈ (allProblems ip base64 command env).map (fun p => p.var.name) ↔
    ∃ v ∈ needs command, v.name = name ∧ ¬Satisfies ip base64 env v := by
  rw [names_allProblems, List.mem_map]
  refine exists_congr fun v => ?_
  rw [List.mem_filter, Option.isSome_iff_ne_none, ne_eq, brokenRule_eq_none_iff]
  tauto

theorem Variable.name_injective : Function.Injective Variable.name := by
  intro v w h
  cases v <;> cases w <;> first | rfl | exact absurd h (by decide)

theorem nodup_names : ((allProblems ip base64 command env).map fun p => p.var.name).Nodup := by
  rw [names_allProblems]
  exact ((nodup_needs command).filter _).map Variable.name_injective

/-- The configuration is loaded if there is no problem, and else all of them are returned. -/
theorem load_cases (ip : IpText) (base64 : Str → Option Bytes) (command : Command) (env : Env) :
    (allProblems ip base64 command env = [] ∧ ∃ config, Config.load ip base64 command env =
      .ok config) ∨ (allProblems ip base64 command env ≠ [] ∧
        Config.load ip base64 command env = .error (allProblems ip base64 command env)) := by
  have hreads : Reads ip base64 env true (read ip base64 env command) (needs command) :=
    reads_read command
  obtain ⟨result, hrun, hsome⟩ := hreads [] rfl
  have hrun : (read ip base64 env command).run [] = (result, allProblems ip base64 command env) :=
    hrun
  unfold Config.load
  rw [hrun]
  cases hproblems : allProblems ip base64 command env with
  | nil =>
    have hall : ∀ v ∈ needs command, (brokenRule ip base64 env v).isNone = true := by
      intro v hv
      rw [Option.isNone_iff_eq_none, brokenRule_eq_none_iff]
      exact allProblems_eq_nil_iff.mp hproblems v hv
    rw [List.all_eq_true.mpr hall, Bool.and_true] at hsome
    obtain ⟨config, rfl⟩ := Option.isSome_iff_exists.mp hsome
    exact .inl ⟨rfl, config, rfl⟩
  | cons p problems =>
    refine .inr ⟨List.cons_ne_nil p problems, ?_⟩
    cases result <;> rfl

/-- The configuration is loaded exactly if each variable that the command needs satisfies its rule.
Else the report names exactly those that do not, each once, and at least one. No other variable
matters. -/
theorem config_report_exact (ip : IpText) (base64 : Str → Option Bytes) (command : Command)
    (env : Env) : ((∃ config, Config.load ip base64 command env = .ok config) ↔
      ∀ v ∈ needs command, Satisfies ip base64 env v) ∧
    (∀ problems, Config.load ip base64 command env = .error problems →
      problems ≠ [] ∧ (problems.map fun p => p.var.name).Nodup ∧
        ∀ name, name ∈ problems.map (fun p => p.var.name) ↔
          ∃ v ∈ needs command, v.name = name ∧ ¬Satisfies ip base64 env v) ∧
    ∀ env' : Env, (∀ v ∈ needs command, env' v.name = env v.name) →
      Config.load ip base64 command env' = Config.load ip base64 command env := by
  refine ⟨?_, ?_, ?_⟩
  · rw [← allProblems_eq_nil_iff]
    obtain ⟨hnil, hload⟩ | ⟨hne, hload⟩ := load_cases ip base64 command env
    · exact iff_of_true hload hnil
    · refine iff_of_false ?_ hne
      intro hok
      obtain ⟨config, hok⟩ := hok
      rw [hload] at hok
      cases hok
  · intro problems hproblems
    obtain ⟨-, config, hload⟩ | ⟨hne, hload⟩ := load_cases ip base64 command env
    · rw [hload] at hproblems
      cases hproblems
    · obtain rfl := Except.error.inj (hload.symm.trans hproblems)
      exact ⟨hne, nodup_names, fun _ => mem_names_iff⟩
  · intro env' henv
    rw [Config.load, Config.load, read_congr command henv]

/-- 32 zero bytes as base64: 43 times `A` and the padding. -/
def zeroSecret : Str := List.replicate 43 'A' ++ ['=']

/-- The decoder on that text. -/
def decodeZero (text : Str) : Option Bytes :=
  if text = zeroSecret then some (List.replicate 32 0) else none

/-- Only the secret is set. -/
def onlySecret : Env := fun name =>
  if name = Variable.secret.name then some (asBytes zeroSecret) else none

theorem config_report_exact_only_secret :
    (∃ config, Config.load dotted decodeZero .backup onlySecret = .ok config) ∧
      ¬∃ config, Config.load dotted decodeZero .projectCreate onlySecret = .ok config := by
  rw [(config_report_exact dotted decodeZero .backup onlySecret).1,
    (config_report_exact dotted decodeZero .projectCreate onlySecret).1]
  refine ⟨?_, ?_⟩
  · intro v hv
    obtain rfl := List.mem_singleton.mp hv
    exact ⟨zeroSecret, fromUtf8_asBytes _, by decide, by decide, by decide⟩
  · intro h
    have hunset : isRequired .baseUrl = false := h .baseUrl (by decide)
    cases hunset

end Load

end Kohaku
