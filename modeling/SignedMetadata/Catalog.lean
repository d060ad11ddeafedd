import SignedMetadata.Shape.Check

/-
  Shapes of role metadata and of the pieces it is built from.

  Objects may have more fields than their shapes name, so
  that newer metadata keeps its shape for older readers.
  `Catalog.find?` gives a shape by its name.
-/

namespace SignedMetadata

namespace Catalog

------------------------------------------------------------
-- Texts
------------------------------------------------------------

/- One or more hex digits. -/
def hexPattern : Pattern :=
  (Pattern.compile? "[a-fA-F0-9]+").get (by decide +kernel)

/- Date and time in UTC, to the second. -/
def datetimePattern : Pattern :=
  (Pattern.compile?
    "\\d{4}-\\d{2}-\\d{2}T\\d{2}:\\d{2}:\\d{2}Z").get
      (by decide +kernel)

/- Date and time in UTC. -/
def datetime : Shape := .pattern datetimePattern

/- A hash in hex digits. -/
def hash : Shape := .pattern hexPattern

/- Bytes in hex digits. -/
def hex : Shape := .pattern hexPattern

/- Hashes by the names of their algorithms. -/
def hashDict : Shape := .dictOf .anyString hash

/- The identifier of a key. -/
def keyId : Shape := hash

/- Identifiers of keys. -/
def keyIds : Shape := .list keyId

/- A signature method. -/
def signatureMethod : Shape := .anyString

/- A relative path of a file. -/
def relativePath : Shape := .anyString

/- Relative paths of files. -/
def relativePaths : Shape := .list relativePath

/- A path of a file. -/
def filePath : Shape := .anyString

/- Paths of files. -/
def filePaths : Shape := .list filePath

/- The address of a resource. -/
def url : Shape := .anyString

/- A name. -/
def name : Shape := .anyString

/- Names. -/
def names : Shape := .list name

/- The name of a role. -/
def roleName : Shape := .anyString

/- The names of hash algorithms. -/
def hashAlgorithms : Shape :=
  .list <|
    .oneOf [.exact "md5", .exact "sha1", .exact "sha224",
      .exact "sha256", .exact "sha384", .exact "sha512"]

/- The start of a hash of a path. -/
def pathHashPrefix : Shape := hex

/- Starts of hashes of paths. -/
def pathHashPrefixes : Shape := .list pathHashPrefix

/- How a file is compressed; the empty text if not at all. -/
def compression : Shape :=
  .oneOf [.exact "", .exact "gz"]

/- Ways of compressing files. -/
def compressions : Shape := .list compression

------------------------------------------------------------
-- Numbers
------------------------------------------------------------

/- A time in seconds of 31 bits. -/
def unixTimestamp : Shape := .integer 0 2147483647

/- The version of metadata. -/
def metadataVersion : Shape := .integerAtLeast 0

/- The length of a file. -/
def length : Shape := .integerAtLeast 0

/- How many signatures a role needs. -/
def threshold : Shape := .integerAtLeast 1

/- The size of an RSA key in bits. -/
def rsaKeyBits : Shape := .integerAtLeast 2048

/- How many bins there are. -/
def binCount : Shape := .integerAtLeast 1

/- A version of three numbers. -/
def version : Shape :=
  .object "VERSION" [
    ("major", .integerAtLeast 0),
    ("minor", .integerAtLeast 0),
    ("fix", .integerAtLeast 0)]

------------------------------------------------------------
-- Keys
------------------------------------------------------------

/- The value of a key. -/
def keyValue : Shape :=
  .object "KEYVAL" [
    ("public", .anyString),
    ("private", .optional .anyString)]

/- The type of a key. -/
def keyType : Shape :=
  .oneOf [.exact "rsa", .exact "ed25519"]

/- A key. -/
def key : Shape :=
  .object "KEY" [
    ("keytype", .anyString),
    ("keyval", keyValue),
    ("expires", .optional datetime)]

/- A key of a known type, with its identifier. -/
def anyKey : Shape :=
  .object "ANYKEY" [
    ("keytype", keyType),
    ("keyid", keyId),
    ("keyid_hash_algorithms", .optional hashAlgorithms),
    ("keyval", keyValue),
    ("expires", .optional datetime)]

/- Keys of known types. -/
def anyKeys : Shape := .list anyKey

/- A key of one type, with its identifier. -/
def typedKey (name type : String) : Shape :=
  .object name [
    ("keytype", .exact type),
    ("keyid", keyId),
    ("keyid_hash_algorithms", .optional hashAlgorithms),
    ("keyval", keyValue)]

/- An RSA key. -/
def rsaKey : Shape := typedKey "RSAKEY" "rsa"

/- An Ed25519 key. -/
def ed25519Key : Shape := typedKey "ED25519KEY" "ed25519"

/- Keys by their identifiers. -/
def keyDict : Shape := .dictOf keyId key

/- Anything by the identifiers of keys. -/
def keyDatabase : Shape := .dictOf keyId .any

------------------------------------------------------------
-- Files
------------------------------------------------------------

/- Data that an application adds. -/
def custom : Shape := .object "CUSTOM" []

/- What is known of a file. -/
def fileInfo : Shape :=
  .object "FILEINFO" [
    ("length", length),
    ("hashes", hashDict),
    ("version", .optional metadataVersion),
    ("custom", .optional custom)]

/- The version of a metadata file. -/
def versionInfo : Shape :=
  .object "VERSIONINFO" [("version", metadataVersion)]

/- Versions by the paths of files. -/
def versionDict : Shape := .dictOf relativePath versionInfo

/- What is known of files, by their paths. -/
def fileDict : Shape := .dictOf relativePath fileInfo

/- A target file. -/
def targetInfo : Shape :=
  .object "TARGETINFO" [
    ("filepath", relativePath),
    ("fileinfo", fileInfo)]

/- Target files. -/
def targetInfos : Shape := .list targetInfo

/- Data that an application adds to files, by their paths. -/
def pathFileInfo : Shape := .dictOf relativePath custom

------------------------------------------------------------
-- Signatures
------------------------------------------------------------

/- A signature record. -/
def signature : Shape :=
  .object "SIGNATURE" [
    ("keyid", keyId),
    ("method", .anyString),
    ("sig", hex)]

/- Signature records. -/
def signatures : Shape := .list signature

/- A payload with its signatures. -/
def signable : Shape :=
  .object "SIGNABLE" [
    ("signed", .any),
    ("signatures", signatures)]

------------------------------------------------------------
-- Delegation
------------------------------------------------------------

/- The keys and the duties of a role. -/
def role : Shape :=
  .object "ROLE" [
    ("name", .optional roleName),
    ("keyids", keyIds),
    ("threshold", threshold),
    ("backtrack", .optional .boolean),
    ("paths", .optional relativePaths),
    ("path_hash_prefixes", .optional pathHashPrefixes)]

/- Roles by their names. -/
def roleDict : Shape := .dictOf roleName role

/- Roles in order. -/
def roleList : Shape := .list role

/- Keys and roles that targets are delegated to. -/
def delegations : Shape :=
  .object "DELEGATIONS" [
    ("keys", keyDict),
    ("roles", roleList)]

/- A mirror. -/
def mirror : Shape :=
  .object "MIRROR" [
    ("url_prefix", .anyString),
    ("metadata_path", relativePath),
    ("targets_path", relativePath),
    ("confined_target_dirs", relativePaths),
    ("custom", .optional custom)]

/- Mirrors by their names. -/
def mirrorDict : Shape := .dictOf .anyString mirror

------------------------------------------------------------
-- Roles
------------------------------------------------------------

/- Metadata of the root role. -/
def root : Shape :=
  .object "ROOT" [
    ("_type", .exact "Root"),
    ("version", metadataVersion),
    ("consistent_snapshot", .boolean),
    ("compression_algorithms", compressions),
    ("expires", datetime),
    ("keys", keyDict),
    ("roles", roleDict)]

/- Metadata of a targets role. -/
def targets : Shape :=
  .object "TARGETS" [
    ("_type", .exact "Targets"),
    ("version", metadataVersion),
    ("expires", datetime),
    ("targets", fileDict),
    ("delegations", .optional delegations)]

/- Metadata about the versions of other metadata. -/
def metaRole (name type : String) : Shape :=
  .object name [
    ("_type", .exact type),
    ("version", metadataVersion),
    ("expires", datetime),
    ("meta", versionDict)]

/- Metadata of the snapshot role. -/
def snapshot : Shape := metaRole "SNAPSHOT" "Snapshot"

/- Metadata of the timestamp role. -/
def timestamp : Shape := metaRole "TIMESTAMP" "Timestamp"

/- Metadata of the mirrors role. -/
def mirrorList : Shape :=
  .object "MIRRORLIST" [
    ("_type", .exact "Mirrors"),
    ("version", metadataVersion),
    ("expires", datetime),
    ("mirrors", .list mirror)]

/- Metadata of one of the roles. -/
def anyRole : Shape :=
  .oneOf [root, targets, snapshot, timestamp, mirrorList]

------------------------------------------------------------
-- Names of Shapes
------------------------------------------------------------

/- The shapes of the catalog by their names. -/
def entries : List (String × Shape) := [
  ("iso8601_datetime", datetime),
  ("unix_timestamp", unixTimestamp),
  ("hash", hash),
  ("hash_dict", hashDict),
  ("hex", hex),
  ("keyid", keyId),
  ("keyids", keyIds),
  ("sig_method", signatureMethod),
  ("relpath", relativePath),
  ("relpaths", relativePaths),
  ("path", filePath),
  ("paths", filePaths),
  ("url", url),
  ("version", version),
  ("metadata_version", metadataVersion),
  ("length", length),
  ("name", name),
  ("names", names),
  ("hash_algorithms", hashAlgorithms),
  ("boolean", .boolean),
  ("threshold", threshold),
  ("rolename", roleName),
  ("rsa_key_bits", rsaKeyBits),
  ("num_bins", binCount),
  ("keyval", keyValue),
  ("keytype", keyType),
  ("key", key),
  ("anykey", anyKey),
  ("anykey_list", anyKeys),
  ("rsa_key", rsaKey),
  ("ed25519_key", ed25519Key),
  ("fileinfo", fileInfo),
  ("versioninfo", versionInfo),
  ("version_dict", versionDict),
  ("file_dict", fileDict),
  ("targetinfo", targetInfo),
  ("targetinfos", targetInfos),
  ("signature", signature),
  ("signatures", signatures),
  ("signable", signable),
  ("key_dict", keyDict),
  ("key_db", keyDatabase),
  ("path_hash_prefix", pathHashPrefix),
  ("path_hash_prefixes", pathHashPrefixes),
  ("role", role),
  ("role_dict", roleDict),
  ("role_list", roleList),
  ("delegations", delegations),
  ("compression", compression),
  ("compressions", compressions),
  ("custom", custom),
  ("path_fileinfo", pathFileInfo),
  ("mirror", mirror),
  ("mirror_dict", mirrorDict),
  ("root", root),
  ("targets", targets),
  ("snapshot", snapshot),
  ("timestamp", timestamp),
  ("mirrorlist", mirrorList),
  ("any_role", anyRole)]

/- The shape of a name. -/
def find? (name : String) : Option Shape :=
  entries.lookup name

end Catalog

end SignedMetadata
