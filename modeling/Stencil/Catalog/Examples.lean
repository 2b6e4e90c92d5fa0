import Stencil.Template.Bundle

/-!
# The sets that come along

The set `examples` is the one whose hash is known from the start. A second set, `extra`, is small
and not known.
-/

namespace Stencil.Examples

/-- A virtual server for HTTP with a fixed pool. -/
def simpleHttp : String :=
  "\x7b\x7b! HTTP virtual server balancing a static pool of web servers \x7d\x7d\n" ++
  "\x7b\n" ++
  "  \"class\": \"ADC\",\n" ++
  "  \"schemaVersion\": \"3.0.0\",\n" ++
  "  \"id\": \x7b\x7buuid\x7d\x7d,\n" ++
  "  \x7b\x7btenant_name\x7d\x7d: \x7b\n" ++
  "    \"class\": \"Tenant\",\n" ++
  "    \x7b\x7bapp_name\x7d\x7d: \x7b\n" ++
  "      \"class\": \"Application\",\n" ++
  "      \"template\": \"http\",\n" ++
  "      \"serviceMain\": \x7b\n" ++
  "        \"class\": \"Service_HTTP\",\n" ++
  "        \"virtualAddresses\": [\x7b\x7bvirtual_address\x7d\x7d],\n" ++
  "        \"virtualPort\": \x7b\x7bvirtual_port:integer:80\x7d\x7d,\n" ++
  "        \"pool\": \"web_pool\"\n" ++
  "      \x7d,\n" ++
  "      \"web_pool\": \x7b\n" ++
  "        \"class\": \"Pool\",\n" ++
  "        \"monitors\": [\"http\"],\n" ++
  "        \"members\": [\x7b\n" ++
  "          \"servicePort\": \x7b\x7bserver_port:integer:80\x7d\x7d,\n" ++
  "          \"serverAddresses\": \x7b\x7bpool_members:array\x7d\x7d\n" ++
  "        \x7d]\n" ++
  "      \x7d\n" ++
  "    \x7d\n" ++
  "  \x7d\n" ++
  "\x7d\n"

/-- A virtual server with a pool whose settings are parameters. -/
def withPool : String :=
  "\x7b\x7b! TCP virtual server with a configurable load-balanced pool \x7d\x7d\n" ++
  "\x7b\n" ++
  "  \"class\": \"AS3\",\n" ++
  "  \"action\": \"deploy\",\n" ++
  "  \"persist\": true,\n" ++
  "  \"declaration\": \x7b\n" ++
  "    \"class\": \"ADC\",\n" ++
  "    \"schemaVersion\": \"3.0.0\",\n" ++
  "    \"id\": \x7b\x7buuid\x7d\x7d,\n" ++
  "    \x7b\x7btenant_name\x7d\x7d: \x7b\n" ++
  "      \"class\": \"Tenant\",\n" ++
  "      \x7b\x7bapp_name\x7d\x7d: \x7b\n" ++
  "        \"class\": \"Application\",\n" ++
  "        \"service\": \x7b\n" ++
  "          \"class\": \"Service_TCP\",\n" ++
  "          \"virtualAddresses\": [\x7b\x7bvirtual_address\x7d\x7d],\n" ++
  "          \"virtualPort\": \x7b\x7bvirtual_port:integer\x7d\x7d,\n" ++
  "          \"pool\": \"pool\"\n" ++
  "        \x7d,\n" ++
  "        \"pool\": \x7b\n" ++
  "          \"class\": \"Pool\",\n" ++
  "          \"loadBalancingMode\": \x7b\x7blb_method:f5\x7d\x7d,\n" ++
  "          \"monitors\": [\x7b\x7bmonitor:f5\x7d\x7d],\n" ++
  "          \"members\": [\x7b\n" ++
  "            \"servicePort\": \x7b\x7bserver_port:integer:443\x7d\x7d,\n" ++
  "            \"serverAddresses\": \x7b\x7bpool_members:array\x7d\x7d,\n" ++
  "            \"shareNodes\": \x7b\x7bshare_nodes:boolean:true\x7d\x7d\n" ++
  "          \x7d]\n" ++
  "        \x7d\n" ++
  "      \x7d\n" ++
  "    \x7d\n" ++
  "  \x7d\n" ++
  "\x7d\n"

/-- The fragments that `withPool` refers to. -/
def f5 : String :=
  "\x7b\n" ++
  "  \"lb_method\": \x7b\n" ++
  "    \"type\": \"string\",\n" ++
  "    \"title\": \"Load balancing method\",\n" ++
  "    \"enum\": [\n" ++
  "      \"round-robin\",\n" ++
  "      \"least-connections-member\",\n" ++
  "      \"ratio-member\",\n" ++
  "      \"fastest-node\"\n" ++
  "    ]\n" ++
  "  \x7d,\n" ++
  "  \"monitor\": \x7b\n" ++
  "    \"type\": \"string\",\n" ++
  "    \"title\": \"Health monitor\",\n" ++
  "    \"enum\": [\"tcp\", \"http\", \"https\", \"icmp\"],\n" ++
  "    \"default\": \"tcp\"\n" ++
  "  \x7d\n" ++
  "\x7d\n"

/-- A service without schema files. -/
def plain : String :=
  "\x7b\x7b! Plain service without a schema reference \x7d\x7d\n" ++
  "\x7b\n" ++
  "  \"class\": \"ADC\",\n" ++
  "  \x7b\x7btenant_name\x7d\x7d: \x7b\n" ++
  "    \"class\": \"Tenant\",\n" ++
  "    \x7b\x7bapp_name\x7d\x7d: \x7b\n" ++
  "      \"class\": \"Application\",\n" ++
  "      \"remark\": \x7b\x7bremark:text\x7d\x7d\n" ++
  "    \x7d\n" ++
  "  \x7d\n" ++
  "\x7d"

/-- The set whose hash is known. -/
def examples : Bundle :=
  Bundle.build "examples" [("simple_http", simpleHttp), ("with_pool", withPool)] [("f5", f5)]

/-- The set that is not known. -/
def extra : Bundle := Bundle.build "extra" [("plain", plain)] []

/-- The files of the examples below a folder of sets. -/
def files : List (String × String) :=
  [("examples/simple_http.mst", simpleHttp), ("examples/with_pool.mst", withPool), ("examples/f5.json", f5),
   ("extra/plain.mst", plain)]

end Stencil.Examples
