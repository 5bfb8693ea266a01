import RedisCluster.Library.Substitution
import RedisCluster.Shell.Text

/-!
# The placeholders of the templates

`{NAME}` in a template stands for a value that `config()` substitutes. `braces` is
how they are written; `confPlaceholders` are the fifteen of the instance confs,
`tlsPlaceholders` the six of them that only the TLS chain knows.
-/

namespace RedisCluster

open Substitution

/-- The names of the placeholders. -/
inductive Placeholder where
  | clusterHomeDir
  | clusterid
  | nodeid
  | rdbDir
  | host
  | port
  | addrs
  | password
  | tlsHashtag
  | tlsPort
  | tlsCertfile
  | tlsKeyfile
  | tlsDhfile
  | tlsCacert
  | tlsCacertdir
  | nodehost
  | ports
  | clusterhome
  | cacertdir
  | clusterreplicas
  deriving DecidableEq

namespace Placeholder

/-- The name as it is written. -/
def string : Placeholder → String
  | clusterHomeDir => "CLUSTER_HOME_DIR"
  | clusterid => "CLUSTERID"
  | nodeid => "NODEID"
  | rdbDir => "RDB_DIR"
  | host => "HOST"
  | port => "PORT"
  | addrs => "ADDRS"
  | password => "PASSWORD"
  | tlsHashtag => "TLS_HASHTAG"
  | tlsPort => "TLS_PORT"
  | tlsCertfile => "TLS_CERTFILE"
  | tlsKeyfile => "TLS_KEYFILE"
  | tlsDhfile => "TLS_DHFILE"
  | tlsCacert => "TLS_CACERT"
  | tlsCacertdir => "TLS_CACERTDIR"
  | nodehost => "NODEHOST"
  | ports => "PORTS"
  | clusterhome => "CLUSTERHOME"
  | cacertdir => "CACERTDIR"
  | clusterreplicas => "CLUSTERREPLICAS"

theorem string_injective : Function.Injective string := by
  intro p q h
  cases p <;> cases q <;> first | rfl | exact absurd h (by decide)

end Placeholder

/-- `{NAME}` -/
def braces : Marks Placeholder Char where
  opener := '{'
  closer := '}'
  name p := p.string.toList
  opener_ne_closer := by decide
  opener_not_mem p := by cases p <;> decide
  closer_not_mem p := by cases p <;> decide
  name_injective p q h := Placeholder.string_injective (String.toList_injective h)

/-- The placeholders that `config()` knows in instance confs. -/
def confPlaceholders : List Placeholder :=
  [.clusterHomeDir, .clusterid, .nodeid, .rdbDir, .host, .port, .addrs, .password, .tlsHashtag,
    .tlsPort, .tlsCertfile, .tlsKeyfile, .tlsDhfile, .tlsCacert, .tlsCacertdir]

/-- Those of them that only the TLS chain substitutes. -/
def tlsPlaceholders : List Placeholder :=
  [.tlsPort, .tlsCertfile, .tlsKeyfile, .tlsDhfile, .tlsCacert, .tlsCacertdir]

end RedisCluster
