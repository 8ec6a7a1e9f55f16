import LightPeer.Bloom.Rate
import LightPeer.Decimal.Numeral
import LightPeer.Network.Basic

/-!
# The command line

The program has two commands.  Options have long names behind two hyphens and
short ones behind one; a value follows as the next argument, or is joined to a
long name by an equals sign, and to a short one directly or by an equals sign.
Two hyphens alone end the options.  A value that looks like an option must be
joined.

Arguments are taken one after the other, so a request for help counts as soon as
it is reached, if nothing before it is wrong.
-/

namespace LightPeer.Arguments

/-- An argument by its form. -/
inductive Token
  | escape
  | long (name : List Char) (value : Option String)
  | short (letters : List Char)
  | plain (text : String)
  deriving DecidableEq, Repr

/-- The form of an argument. -/
def Token.ofText (text : String) : Token :=
  match text.toList with
  | ['-', '-'] => .escape
  | '-' :: '-' :: cs =>
    let name := cs.takeWhile (· ≠ '=')
    match cs.drop name.length with
    | [] => .long name none
    | _ :: value => .long name (some (String.ofList value))
  | '-' :: c :: cs => .short (c :: cs)
  | _ => .plain text

/-- Whether an argument can be the value of the option before it. -/
def isValue (text : String) : Bool :=
  match Token.ofText text with
  | .plain _ => true
  | _ => false

/-- An option of the command that listens. -/
inductive ListenOption
  | peer
  | network
  | address
  | rate
  | config
  deriving DecidableEq, Repr

namespace ListenOption

/-- The option with a long name. -/
def ofName? (name : List Char) : Option ListenOption :=
  let name := String.ofList name
  if name = "peer" then some .peer
  else if name = "network" then some .network
  else if name = "address" then some .address
  else if name = "fp-rate" then some .rate
  else if name = "config" then some .config
  else none

/-- The option with a short name. -/
def ofLetter? (c : Char) : Option ListenOption :=
  if c = 'p' then some .peer
  else if c = 'n' then some .network
  else if c = 'a' then some .address
  else if c = 'c' then some .config
  else none

end ListenOption

/-- The values of the options of the command that listens. -/
structure ListenValues where
  peer : Option String := none
  network : Option Network := none
  addresses : List String := []
  rate : Option Rate := none
  config : Option String := none
  deriving Inhabited

/-- The values with one more.  Only addresses can be given more than once. -/
def ListenValues.set? (v : ListenValues) (option : ListenOption) (value : String) :
    Option ListenValues :=
  match option with
  | .peer => if v.peer.isSome then none else some { v with peer := some value }
  | .network =>
    if v.network.isSome then none
    else (Network.ofText? value).map fun n => { v with network := some n }
  | .address => some { v with addresses := v.addresses ++ [value] }
  | .rate =>
    if v.rate.isSome then none
    else (Decimal.ofText? value).map fun r => { v with rate := some (Rate.ofFloat r) }
  | .config =>
    if v.config.isSome || value.isEmpty then none else some { v with config := some value }

/-- What help is asked about. -/
inductive Topic
  | program
  | listen
  | address
  | help
  deriving DecidableEq, Repr

/-- What the program is asked to do. -/
inductive Request
  | help (topic : Topic)
  | version
  | listen (peer : String) (values : ListenValues)
  | address (addresses : List String)

/-- The request of the command that listens, from its arguments. -/
def listen? (v : ListenValues) : List String → Option Request
  | [] => v.peer.map fun peer => .listen peer v
  | arg :: args =>
    let next (option : ListenOption) : Option Request :=
      match args with
      | [] => none
      | value :: args =>
        if isValue value then (v.set? option value).bind fun v => listen? v args else none
    let joined (option : ListenOption) (value : String) : Option Request :=
      (v.set? option value).bind fun v => listen? v args
    match Token.ofText arg with
    | .escape => if args.isEmpty then v.peer.map fun peer => .listen peer v else none
    | .plain _ => none
    | .long name value =>
      if name = "help".toList then if value.isNone then some (.help .listen) else none
      else
        match ListenOption.ofName? name, value with
        | none, _ => none
        | some option, none => next option
        | some option, some value => joined option value
    | .short [] => none
    | .short (c :: cs) =>
      if c = 'h' then some (.help .listen)
      else
        match ListenOption.ofLetter? c, cs with
        | none, _ => none
        | some option, [] => next option
        | some option, '=' :: value => joined option (String.ofList value)
        | some option, value => joined option (String.ofList value)

/-- The request of the command that shows hashes, from its arguments. -/
def address? (addresses : List String) : List String → Option Request
  | [] => if addresses.isEmpty then none else some (.address addresses)
  | arg :: args =>
    match Token.ofText arg with
    | .escape =>
      let addresses := addresses ++ args
      if addresses.isEmpty then none else some (.address addresses)
    | .plain text => address? (addresses ++ [text]) args
    | .long name value =>
      if name = "help".toList && value.isNone then some (.help .address) else none
    | .short letters => if letters.head? = some 'h' then some (.help .address) else none

/-- The topic that the arguments of the command for help name. -/
def topic? : List String → Option Topic
  | [] => some .program
  | ["listen"] => some .listen
  | ["address"] => some .address
  | ["help"] => some .help
  | _ => none

/-- What the arguments of the program ask for; nothing if they are wrong. -/
def request? : List String → Option Request
  | [] => none
  | arg :: args =>
    match Token.ofText arg with
    | .escape => none
    | .plain name =>
      if name = "listen" then listen? {} args
      else if name = "address" then address? [] args
      else if name = "help" then (topic? args).map .help
      else none
    | .long name value =>
      if name = "help".toList && value.isNone then some (.help .program)
      else if name = "version".toList && value.isNone then some .version
      else none
    | .short letters =>
      if letters.head? = some 'h' then some (.help .program)
      else if letters.head? = some 'V' then some .version
      else none

/-- The lines about a topic. -/
def Topic.lines : Topic → List String
  | .program =>
    ["Listen to a Bitcoin peer over the P2P protocol", "",
     "Usage: btc-listener <COMMAND>", "",
     "Commands:",
     "  listen   Connect to a peer and print transactions and blocks",
     "  address  Print the hash each address commits to",
     "  help     Print this message or the help of the given subcommand(s)", "",
     "Options:",
     "  -h, --help     Print help",
     "  -V, --version  Print version"]
  | .listen =>
    ["Connect to a peer and print transactions and blocks", "",
     "Usage: btc-listener listen [OPTIONS] --peer <PEER>", "",
     "Options:",
     "  -p, --peer <PEER>          Peer to connect to, as host or host:port",
     "  -n, --network <NETWORK>    Network: mainnet, testnet, regtest or signet",
     "  -a, --address <ADDRESSES>  Address to watch through a bloom filter (repeatable)",
     "      --fp-rate <FP_RATE>    Bloom filter false positive rate",
     "  -c, --config <CONFIG>      JSON connection config",
     "  -h, --help                 Print help"]
  | .address =>
    ["Print the hash each address commits to", "",
     "Usage: btc-listener address <ADDRESSES>...", "",
     "Arguments:",
     "  <ADDRESSES>...  Addresses to decode", "",
     "Options:",
     "  -h, --help  Print help"]
  | .help =>
    ["Print this message or the help of the given subcommand(s)", "",
     "Usage: btc-listener help [COMMAND]...", "",
     "Arguments:",
     "  [COMMAND]...  Print help for the subcommand(s)"]

/-- The line about the version. -/
def versionLine : String := "btc-listener 0.1.0"

end LightPeer.Arguments
