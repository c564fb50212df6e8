import Nexus.LLD.Database

/-!
# Register operations

`WRITE`, `APPEND`, `CREATE`, `TRANSFER` and `CLAIM`.  Each operation has a
`Verify` that checks the contract, an `Execute` that calculates the state it
leaves, and a `Commit` that writes the databases.
-/

namespace Nexus.Operation

open Nexus.Lib.Bytes
open Nexus.Lib.Checked
open Nexus.Util
open Nexus.Register
open Nexus.LLD

/-- The type bytes of a genesis. -/
def GENESIS.SYSTEM : UInt8 := 0x00

/-! ## Common parts -/

/-- The beginning of a `Verify`: back to the operation code, which is checked, with
the register script at its beginning. -/
def beginVerify (nOP : UInt8) (contract : Contract) : Result Contract := do
  let contract ← contract.rewind 1
  let contract := contract.resetRegisters
  let (nOp, contract) ← contract.extract UInt8
  reject (nOp ≠ nOP) (.error "called with incorrect OP")
  return contract

/-- The valid pre-state that a `Verify` reads. -/
def verifyState (rt : Runtime) (contract : Contract) : Result (State × Contract) := do
  let (state, contract) ← contract.preState "register script not in pre-state"
  reject (state.IsValid rt = false) (.error "pre-state is in invalid state")
  return (state, contract)

/-- The end of an `Execute`: the modified time, the checksum, and the check of the new
state. -/
def finish (rt : Runtime) (strMessage : String) (state : State) (nTimestamp : UInt64) :
    Result State := do
  let state := { state with nModified := nTimestamp }.SetChecksum rt
  reject (state.IsValid rt = false) (.error strMessage)
  return state

theorem finish_eq_ok {rt : Runtime} {strMessage : String} {state state' : State}
    {nTimestamp : UInt64} :
    finish rt strMessage state nTimestamp = .ok state' ↔
      state' = { state with nModified := nTimestamp }.SetChecksum rt ∧ state'.IsValid rt = true := by
  simp only [finish, bind_eq_ok, reject_eq_ok, pure_eq_ok, Bool.not_eq_false]
  constructor
  · rintro ⟨u, hValid, rfl⟩
    exact ⟨rfl, hValid⟩
  · rintro ⟨rfl, hValid⟩
    exact ⟨(), hValid, rfl⟩

/-- A call that returned `false` makes the caller log its own message. -/
def orError {α : Type} (strMessage : String) : Result α → Result α
  | .error (.error _) => .error (.error strMessage)
  | x => x

/-! ## Write -/

namespace Write

/-- Field names that a write may not touch. -/
def RESERVED : List (List UInt8) :=
  ["balance", "token", "require", "supply", "decimals", "trust", "stake", "system", "name"].map
    bytesOf

/-- `Reserved(strName)`. -/
def Reserved (strName : List UInt8) : Bool := RESERVED.contains strName

/-- One case of the type switch, for a fixed-width value. -/
def writeValue (α : Type) [FieldType α] (strMessage : String) (strName : List UInt8) (s : Stream)
    (object : Object) : Result (Object × Stream) := do
  let (nValue, s) ← s.extract α
  let object ← orError strMessage (object.Write strName nValue)
  return (object, s)

/-- One case of the type switch, for a string or a byte vector. -/
def writeBytes (nType : UInt8) (strMessage : String) (strName : List UInt8) (s : Stream)
    (object : Object) : Result (Object × Stream) := do
  let (vData, s) ← s.extractBytes
  let object ← orError strMessage (object.WriteBytes nType strName vData)
  return (object, s)

/-- The switch on the type of a value. -/
def writeType (nType : UInt8) (strName : List UInt8) (s : Stream) (object : Object) :
    Result (Object × Stream) :=
  if nType = OP.TYPES.UINT8_T then writeValue UInt8 "failed to write uint8_t value" strName s object
  else if nType = OP.TYPES.UINT16_T then writeValue UInt16 "failed to write uint16_t value" strName s object
  else if nType = OP.TYPES.UINT32_T then writeValue UInt32 "failed to write uint32_t value" strName s object
  else if nType = OP.TYPES.UINT64_T then writeValue UInt64 "failed to write uint64_t value" strName s object
  else if nType = OP.TYPES.UINT256_T then
    writeValue Uint256 "failed to write uint256_t value" strName s object
  else if nType = OP.TYPES.UINT512_T then
    writeValue Uint512 "failed to write uint512_t value" strName s object
  else if nType = OP.TYPES.UINT1024_T then
    writeValue Uint1024 "failed to write uint1024_t value" strName s object
  else if nType = OP.TYPES.STRING then writeBytes TYPES.STRING "failed to write string" strName s object
  else if nType = OP.TYPES.BYTES then writeBytes TYPES.BYTES "failed to write bytes" strName s object
  else .error (.error "malformed stream (unexpected type ")

/-- The loop over a write stream.  Every turn consumes at least two bytes, so the
length of the stream bounds the number of turns. -/
def writeFields : Nat → Stream → List (List UInt8) → Object → Result Object
  | 0, s, _, object => if s.atEnd then .ok object else .error (.error "")
  | n + 1, s, setValues, object =>
      if s.atEnd then .ok object
      else do
        let (strName, s) ← s.extractBytes
        reject (Reserved strName) (.error "cannot use reserved '")
        reject (strName ∈ setValues) (.error "cannot write same values twice")
        let (nType, s) ← s.extract UInt8
        let (object, s) ← writeType nType strName s object
        writeFields n s (strName :: setValues) object

/-- The new data of an object register. -/
def executeObject (rt : Runtime) (state : State) (vchData : List UInt8) : Result State := do
  let object ← orError "object register failed to parse" (Object.Parse { state })
  let object ← writeFields vchData.length { vchData } [] object
  return state.SetState rt object.state.vchState

/-- The new data of any other register. -/
def executeRaw (rt : Runtime) (state : State) (vchData : List UInt8) : Result State := do
  reject (vchData.length ≠ state.vchState.length) (.error "size mismatch")
  return state.SetState rt vchData

def Execute (rt : Runtime) (state : State) (vchData : List UInt8) (nTimestamp : UInt64) :
    Result State := do
  let state ←
    (if state.nType = REGISTER.OBJECT then executeObject rt state vchData
    else executeRaw rt state vchData)
  finish rt "post-state is in invalid state" state nTimestamp

def Verify (rt : Runtime) (contract : Contract) : Result Contract := do
  let contract ← beginVerify OP.WRITE contract
  let (hashAddress, contract) ← contract.extract Uint256
  reject (Register.Reserved hashAddress) (.error "cannot write to register with reserved address")
  let (state, contract) ← verifyState rt contract
  reject (state.nType = REGISTER.READONLY ∨ state.nType = REGISTER.APPEND)
    (.error "not allowed on readonly or append types")
  reject (contract.hashCaller ≠ state.hashOwner) (.error "caller not authorized ")
  let contract ← contract.rewind 32
  return contract.resetRegisters

end Write

/-! ## Append -/

namespace Append

def Execute (rt : Runtime) (state : State) (vchData : List UInt8) (nTimestamp : UInt64) :
    Result State :=
  finish rt "post-state is in invalid state" (state.Append rt vchData) nTimestamp

def Verify (rt : Runtime) (contract : Contract) : Result Contract := do
  let contract ← beginVerify OP.APPEND contract
  let (hashAddress, contract) ← contract.extract Uint256
  reject (Register.Reserved hashAddress) (.error "cannot append register with reserved address")
  let (state, contract) ← verifyState rt contract
  reject (state.nType ≠ REGISTER.RAW ∧ state.nType ≠ REGISTER.APPEND)
    (.error "cannot call on non raw or append register")
  reject (contract.hashCaller ≠ state.hashOwner) (.error "caller not authorized ")
  let contract ← contract.rewind 32
  return contract.resetRegisters

end Append

/-! ## Create -/

namespace Create

/-- `NAME::Reserved`. -/
def reservedName (strName : List UInt8) : Bool :=
  (["NXS", "nxs", "NEXUS", "nexus"].map bytesOf).contains strName

/-- `NAMESPACE::Reserved`: a reserved word anywhere in the name. -/
def reservedNamespace (strNamespace : List UInt8) : Bool :=
  (Object.NAMESPACE.GLOBAL :: ["nxs", "nexus.io", "nexus.com", "nexusearth.com"].map bytesOf).any
    fun strReserved => strNamespace.tails.any strReserved.isPrefixOf

/-- `std::islower(c) || std::isdigit(c) || c == '.'`. -/
def namespaceChar (c : UInt8) : Bool := (97 ≤ c && c ≤ 122) || (48 ≤ c && c ≤ 57) || c == 46

def ONE_YEAR : UInt64 := 60 * 60 * 24 * 28 * 13

/-- The default values of an account. -/
def checkAccount (object : Object) : Result Unit := do
  let nBalance ← object.get UInt64 (bytesOf "balance")
  reject (nBalance ≠ 0) (.error "account balance must be zero ")

/-- The default values of a trust account. -/
def checkTrust (rt : Runtime) (object : Object) : Result Unit := do
  let nBalance ← object.get UInt64 (bytesOf "balance")
  reject (nBalance ≠ 0) (.error "trust account can't be created with non-zero balance ")
  let nStake ← object.get UInt64 (bytesOf "stake")
  reject (nStake ≠ 0) (.error "trust account can't be created with non-zero stake ")
  let nTrust ← object.get UInt64 (bytesOf "trust")
  reject (nTrust ≠ if rt.fTestNet ∧ rt.fTrustBoost then ONE_YEAR else 0)
    (.error "trust account can't be created with non-zero trust ")
  let hashToken ← object.get Uint256 (bytesOf "token")
  reject (hashToken ≠ 0) (.error "trust account can't be created with non-default identifier ")

/-- The supply of a token is its balance. -/
def checkSupply (object : Object) : Result Unit := do
  let nSupply ← object.get UInt64 (bytesOf "supply")
  let nBalance ← object.get UInt64 (bytesOf "balance")
  reject (nSupply ≠ nBalance) (.error "token current supply and balance can't mismatch")

/-- The default values of a token. -/
def checkToken (object : Object) : Result Unit := do
  let nIdentifier ← object.get Uint256 (bytesOf "token")
  reject (nIdentifier = 0) (.error "token can't be created with reserved identifier ")
  checkSupply object

/-- The characters of a name. -/
def checkName (object : Object) : Result Unit := do
  let strNamespace ← object.getString (bytesOf "namespace")
  let strName ← object.getString (bytesOf "name")
  if strNamespace = Object.NAMESPACE.GLOBAL then do
    reject (58 ∈ strName) (.error "global names cannot contain colons: ")
    reject (reservedName strName) (.error "global names can't be created with reserved name: ")
  else reject (strName.head? = some 58) (.error "names cannot start with a colon: ")

/-- The characters of a namespace. -/
def checkNamespace (object : Object) : Result Unit := do
  let strNamespace ← object.getString (bytesOf "namespace")
  reject (strNamespace.all namespaceChar = false)
    (.error "namespace can only contain lowercase letters, numbers, periods (.): ")
  reject (reservedNamespace strNamespace) (.error "namespaces can't contain reserved names: ")

/-- The rules of an object by its kind. -/
def checkObject (rt : Runtime) (state : State) : Result Unit := do
  let object ← orError "object register failed to parse" (Object.Parse { state })
  match object.Standard with
  | .ACCOUNT => checkAccount object
  | .TRUST => checkTrust rt object
  | .TOKEN => checkToken object
  | .NAME => checkName object
  | .NAMESPACE => checkNamespace object
  | .CRYPTO => .ok ()
  | .NONSTANDARD => .ok ()

def Execute (rt : Runtime) (state : State) (vchData : List UInt8) (nTimestamp : UInt64) :
    Result State := do
  reject (Register.Range state.nType = false) (.error "register using invalid type range")
  let state := state.SetState rt vchData
  (if state.nType = REGISTER.OBJECT then checkObject rt state else .ok ())
  finish rt "post-state is in invalid state" { state with nCreated := nTimestamp } nTimestamp

/-- `GetNamespaceRegister`. -/
def GetNamespaceRegister (rt : Runtime) (disk : Disk) (strNamespace : List UInt8) :
    Result Object := do
  let state ← demand (disk.register.LookupState (Address.ofNamespace rt strNamespace))
    (.error "Namespace register not found: ")
  reject (state.nType ≠ REGISTER.OBJECT) (.error "Namespace register not an object: ")
  let object ← orError "Unable to parse namespace register: " (Object.Parse { state })
  reject (object.Standard ≠ .NAMESPACE) (.error "Register is not a namespace register: ")
  return object

/-- The token of a new account is a token register. -/
def commitAccount (disk : Disk) (object : Object) : Result Unit := do
  let hashToken ← object.get Uint256 (bytesOf "token")
  reject (hashToken ≠ 0 ∧ disk.register.HasState hashToken = false)
    (.error "cannot create account without token identifier")
  reject (hashToken ≠ 0 ∧ Address.IsToken hashToken = false)
    (.error "token identifier is not for a token register")

/-- The identifier of a new token is its address. -/
def commitToken (disk : Disk) (object : Object) (address : Address) : Result Unit := do
  let hashIdentifier ← object.get Uint256 (bytesOf "token")
  reject (hashIdentifier ≠ address) (.error "token identifier must be token address")
  reject (hashIdentifier = 0) (.error "token can't use reserved identifier ")
  reject (disk.register.HasState hashIdentifier) (.error "token can't use reserved identifier ")
  checkSupply object

/-- The namespace that the address of a name is made with. -/
def nameSpace (rt : Runtime) (disk : Disk) (strNamespace : List UInt8) (hashOwner : Uint256) :
    Result Uint256 :=
  if strNamespace = [] then .ok hashOwner
  else if strNamespace = Object.NAMESPACE.GLOBAL then .ok (Address.ofNamespace rt strNamespace)
  else do
    let objectNamespace ← orError "Namespace does not exist: "
      (GetNamespaceRegister rt disk strNamespace)
    reject (objectNamespace.state.hashOwner ≠ hashOwner) (.error "Namespace not owned by caller: ")
    return Address.ofNamespace rt strNamespace

/-- The address of a new name is made of the name and its namespace. -/
def commitName (rt : Runtime) (disk : Disk) (object : Object) (address : Address) :
    Result Unit := do
  let strName ← object.getString (bytesOf "name")
  let strNamespace ← object.getString (bytesOf "namespace")
  let hashNamespace ← nameSpace rt disk strNamespace object.state.hashOwner
  reject (Address.ofKey rt strName hashNamespace Address.NAME ≠ address)
    (.error "incorrect name or genesis")

/-- The address of a new namespace is made of its name. -/
def commitNamespace (rt : Runtime) (object : Object) (address : Address) : Result Unit := do
  let strNamespace ← object.getString (bytesOf "namespace")
  reject (Address.ofNamespace rt strNamespace ≠ address) (.error "namespace address mismatch")

/-- The address type that a register must have, by its type and kind. -/
def addressType : OBJECTS → UInt8
  | .ACCOUNT => Address.ACCOUNT
  | .TOKEN => Address.TOKEN
  | .TRUST => Address.TRUST
  | .NAME => Address.NAME
  | .NAMESPACE => Address.NAMESPACE
  | .CRYPTO => Address.CRYPTO
  | .NONSTANDARD => Address.OBJECT

/-- The address rules of an object by its kind. -/
def commitObject (rt : Runtime) (disk : Disk) (state : State) (address : Address)
    (nCost : UInt64) : Result UInt64 := do
  let object ← orError "object register failed to parse" (Object.Parse { state })
  let nFee ← object.Cost rt
  reject (GetType address ≠ addressType object.Standard)
    (.error "address type mismatch with object type")
  (match object.Standard with
  | .ACCOUNT => commitAccount disk object
  | .TOKEN => commitToken disk object address
  | .TRUST =>
      reject (RegisterDB.trustAddress rt state.hashOwner ≠ address)
        (.error "trust address mismatch")
  | .NAME => commitName rt disk object address
  | .NAMESPACE => commitNamespace rt object address
  | .CRYPTO => .ok ()
  | .NONSTANDARD => .ok ())
  return nCost + nFee

/-- The address rules of a register by its type. -/
def commitType (rt : Runtime) (disk : Disk) (state : State) (address : Address)
    (nCost : UInt64) : Result UInt64 :=
  if state.nType = REGISTER.OBJECT then commitObject rt disk state address nCost
  else do
    reject (state.nType = REGISTER.READONLY ∧ Address.IsReadonly address = false)
      (.error "address type mismatch with object type")
    reject (state.nType = REGISTER.APPEND ∧ Address.IsAppend address = false)
      (.error "address type mismatch with object type")
    reject (state.nType = REGISTER.RAW ∧ Address.IsRaw address = false)
      (.error "address type mismatch with object type")
    return nCost

def Commit (rt : Runtime) (disk : Disk) (state : State) (address : Address) (nCost : UInt64) :
    Result (Disk × UInt64) := do
  let nCost ← commitType rt disk state address nCost
  reject (disk.register.HasState address)
    (.error "cannot allocate register of same memory address ")
  return ({ disk with register := disk.register.WriteState rt address state }, nCost)

def Verify (contract : Contract) : Result Contract := do
  let contract ← contract.rewind 1
  let (nOP, contract) ← contract.extract UInt8
  reject (nOP ≠ OP.CREATE) (.error "called with incorrect OP")
  let (address, contract) ← contract.extract Uint256
  reject (Address.IsValid address = false)
    (.error "cannot create register with invalid address")
  reject (Register.Reserved address) (.error "cannot create register with reserved address")
  reject (address = WILDCARD_ADDRESS) (.error "cannot create register with wildcard address")
  let (nSize, contract) ← contract.readCompactSize
  reject (1024 < nSize) (.error "register is beyond size limits")
  contract.rewind (32 + getSizeOfCompactSize nSize)

end Create

/-! ## Transfer -/

namespace Transfer

/-- The flag of a transfer that is claimed, and of one that needs no claim. -/
def CLAIM : UInt8 := 0xfa
def FORCE : UInt8 := 0xfb

def Commit (rt : Runtime) (disk : Disk) (state : State) (hashTx : Uint512)
    (hashAddress hashTransfer : Uint256) : Disk :=
  { disk with
    ledger :=
      if hashTransfer ≠ WILDCARD_ADDRESS then disk.ledger.WriteEvent hashTransfer hashTx
      else disk.ledger
    register := disk.register.WriteState rt hashAddress state }

def Execute (rt : Runtime) (state : State) (hashTransfer : Uint256) (nTimestamp : UInt64) :
    Result State :=
  finish rt "post-state is in invalid state" { state with hashOwner := hashTransfer } nTimestamp

/-- A trust account is not transferred. -/
def checkObject (state : State) : Result Unit := do
  let object ← orError "failed to parse the object register" (Object.Parse { state })
  reject (object.Standard = .TRUST) (.error "cannot transfer a trust account")

def Verify (rt : Runtime) (contract : Contract) : Result Contract := do
  let contract ← beginVerify OP.TRANSFER contract
  let (hashAddress, contract) ← contract.extract Uint256
  reject (Register.Reserved hashAddress) (.error "cannot transfer reserved address")
  let (hashTransfer, contract) ← contract.extract Uint256
  reject (hashTransfer = WILDCARD_ADDRESS ∧ contract.noConditions)
    (.error "cannot transfer to wildcard with no conditions")
  let (state, contract) ← verifyState rt contract
  reject (state.hashOwner = hashTransfer) (.error " transfer to self")
  (if state.nType = REGISTER.OBJECT then checkObject state else .ok ())
  reject (contract.hashCaller ≠ state.hashOwner) (.error "caller not authorized ")
  let contract ← contract.rewind 64
  return contract.resetRegisters

end Transfer

/-! ## Claim -/

namespace Claim

def Commit (rt : Runtime) (disk : Disk) (state : State) (hashAddress : Uint256)
    (hashTx : Uint512) (nContract : UInt32) : Result Disk := do
  reject (disk.ledger.HasProof hashAddress hashTx nContract)
    (.error "transfer is already claimed")
  return { disk with
    ledger := disk.ledger.WriteProof hashAddress hashTx nContract
    register := disk.register.WriteState rt hashAddress state }

def Execute (rt : Runtime) (state : State) (hashClaim : Uint256) (nTimestamp : UInt64) :
    Result State := do
  reject (GetType state.hashOwner ≠ GENESIS.SYSTEM) (.error "can't claim untransferred register")
  finish rt "post-state is in invalid state" { state with hashOwner := hashClaim } nTimestamp

/-- `Verify(contract, claim)`: the referenced contract is a transfer that the caller may
claim.  The result is the referenced contract with its streams reset. -/
def Verify (rt : Runtime) (contract claim : Contract) : Result Contract := do
  let claim := claim.resetRegisters
  let claim ← claim.seekToPrimitive
  let (nOP, claim) ← claim.extract UInt8
  reject (nOP ≠ OP.TRANSFER) (.error "cannot claim a register with no transfer")
  let (hashAddress, claim) ← claim.extract Uint256
  reject (Register.Reserved hashAddress) (.error "cannot claim register with reserved address")
  let (hashTransfer, claim) ← claim.extract Uint256
  let (state, claim) ← claim.preState "register script not in pre-state"
  reject (state.hashOwner ≠ contract.hashCaller ∧ hashTransfer ≠ contract.hashCaller ∧
      hashTransfer ≠ WILDCARD_ADDRESS) (.error "claim public-id mismatch with transfer address")
  reject (state.IsValid rt = false) (.error "pre-state is in invalid state")
  return claim.resetOperations.resetRegisters

end Claim

end Nexus.Operation
